import EntityService.Views.Binary
import EntityService.Views.Inline

/-! When the encodings of an upload are stored as they were uploaded. -/
namespace EntityService.Views
open Lib Database Tasks

/-- Every stored value of the provider unpacks, in the size of the upload, to an entity id and
the encoding that was uploaded under it. -/
def StoredUnaltered (db : Database) (dpId : DpId) (token : Token) (uploaded : ℕ → Option Bytes) :
    Prop :=
  ∀ u ∈ db.uploads, u.token = token → ∀ r ∈ db.encodings, r.dp = dpId →
    ∃ (i : ℕ) (size : ℤ) (p : BitPacking) (data : Bytes), r.encodingId = (dpId <<< 32) + i ∧
      u.encodingSize = some size ∧ binaryFormat size = .ok p ∧ uploaded i = some data ∧
        p.unpack r.encoding = .ok (i, data)

inductive Upload
  | json (clkJson : ClkJson) (usesBlocking : Bool)
  | binary (headers : BinaryHeaders) (data : Bytes)

/-- What a request and the task that it schedules have led to. -/
structure Outcome where
  rejected : Bool
  db : Database

def process (settings : Settings) (projectId : ProjectId) (dpId : DpId) (token : Token)
    (w : World) :
    Upload → Outcome
  | .json clkJson usesBlocking =>
    match projectClksPost settings projectId dpId clkJson token usesBlocking w with
    | (w', .error _) => ⟨true, w'.db⟩
    | (w', .ok (job, _)) => ⟨false, (runJob settings projectId dpId token job w').1.db⟩
  | .binary headers data =>
    match projectBinaryclksPost settings projectId dpId headers data token w with
    | (w', .error _) => ⟨true, w'.db⟩
    | (w', .ok _) => ⟨false, w'.db⟩

/-- A ready upload has stored what was uploaded, and any other is rejected or has failed. -/
structure Faithful (dpId : DpId) (token : Token) (uploaded : ℕ → Option Bytes) (o : Outcome) :
    Prop where
  ready : o.db.ReadyUpload token → StoredUnaltered o.db dpId token uploaded
  failed : ¬ o.db.ReadyUpload token → o.rejected = true ∨ o.db.FailedUpload token

def ClkJson.inlineEncodings (usesBlocking : Bool) (clkJson : ClkJson) : List JsonScalar :=
  match clkJson.encodings with
  | some (.array encodings) => encodings
  | some (.external _) => []
  | none => match usesBlocking, clkJson.clks with
    | false, some clks => clks
    | _, _ => (clkJson.clknblocks.getD []).flatMap (List.take 1)

/-- The `i`-th encoding of an object. A binary object is cut into encodings of its declared
size. -/
def externalEncoding (w : World) (file : ExternalFile) (i : ℕ) : Option Bytes := do
  let object ← w.objects.get? file
  if isJson file then
    let encoding ← object.clks[i]?
    (encoding >>= decodeScalar).toOption
  else
    let size ← object.hashSize.toOption
    return (object.data.drop (i * size.toNat)).take size.toNat

def Upload.encoding (settings : Settings) (w : World) (i : ℕ) : Upload → Option Bytes
  | .json clkJson usesBlocking => match clkJson.externalEncodings with
    | some encodings => do externalEncoding w (← encodings.file.toOption) i
    | none => do (decodeScalar (← (clkJson.inlineEncodings usesBlocking)[i]?)).toOption
  | .binary headers data => do
    let (_, size) ← (checkBinaryUploadHeaders settings headers).toOption
    return (data.drop (i * size.toNat)).take size.toNat

/-- Every encoding that an object-store task reads and can store has the declared size. -/
def SizesDeclared (settings : Settings) (w : World) : Job → Prop
  | .pullExternalDataEncodingsOnly file => ∀ (count : ℤ) (size : ℕ) (encodings : List Bytes),
      ReadObject w file count size encodings → Int4 count → Int4 size →
        ∀ e ∈ encodings, e.length = size
  | .pullExternalData encodingFile blocksFile => ∀ (size : ℕ) (encodings : List Bytes),
      StorableBlocks settings w encodingFile blocksFile size encodings →
        ∀ e ∈ encodings, e.length = size
  | .handleRawUpload => False

/-- The encodings of accepted entries can be read, and each, fitted to the size of the first,
is the one that was uploaded under its number. A size that fits no column is one that does
not fit the project either. -/
def EntriesUniform (settings : Settings) (w : World) (projectId : ProjectId)
    (uploaded : ℕ → Option Bytes) (entries : List (List JsonScalar)) : Prop :=
  ∃ (size : ℕ) (encodings : List Bytes), ReadEntries entries size encodings ∧
    if Int4 size then ∀ i e, encodings[i]? = some e → uploaded i = some (fit size e)
    else checkDataprovidersEncoding settings w.db projectId size = false

/-- The condition under which an upload is stored unaltered, or refused. -/
def Intact (settings : Settings) (w : World) (projectId : ProjectId) (dpId : DpId) : Upload → Prop
  | .json clkJson usesBlocking =>
    abortIfInconsistentUpload usesBlocking clkJson = .ok () →
    match clkJson.externalEncodings with
    | some encodings => ∀ job, externalUpload projectId dpId encodings clkJson.blocks = .ok job →
        SizesDeclared settings w job
    | none => ∀ entries, inlineEntries usesBlocking clkJson = .ok entries →
        Countable settings entries →
        EntriesUniform settings w projectId
          (fun i => (Upload.json clkJson usesBlocking).encoding settings w i) entries
  | .binary _ _ => True

section Completed
variable {db db' : Database} {dpId : DpId} {token : Token} {count size : ℤ}
  {blocks : List (BlockName × ℤ)} {uploaded : ℕ → Option Bytes}

/-- A completed upload has stored its encodings fitted to the size. -/
theorem storedUnaltered_iff {s : ℕ} {encodings : List Bytes} {names : ℕ → List BlockName}
    (h : Completed db db' dpId token count s blocks (packedItems s encodings names))
    (hvacant : db.Vacant dpId) (hlen : encodings.length ≤ 2 ^ 32) :
    StoredUnaltered db' dpId token uploaded ↔
      ∀ i e, encodings[i]? = some e → uploaded i = some (fit s e) := by
  have hi := h.ingested hvacant
  have hunpack : ∀ i e, encodings[i]? = some e →
      (⟨s⟩ : BitPacking).unpack (packedItem s (i, e, names i)).2.1 = .ok (i, fit s e) := by
    intro i e he
    have hlt := (List.getElem?_eq_some_iff.mp he).1
    exact BitPacking.unpack_pack ⟨s⟩ ((BitPacking.pack_eq_ok ⟨s⟩).mpr ⟨by omega, rfl⟩)
  have hrow : ∀ r, r ∈ db'.encodings ∧ r.dp = dpId ↔ ∃ i e, encodings[i]? = some e ∧
      r = encodingRow dpId (packedItem s (i, e, names i)) := by
    intro r
    have hfilter : r ∈ db'.encodings ∧ r.dp = dpId ↔
        r ∈ db'.encodings.filter (fun r => r.dp = dpId) := by simp
    rw [hfilter, hi.encodings, List.mem_map]
    constructor
    · rintro ⟨item, hitem, rfl⟩
      obtain ⟨e, he, hpacked⟩ := mem_packedItems.mp hitem
      exact ⟨item.1, e, he, by rw [← hpacked]⟩
    · rintro ⟨i, e, he, rfl⟩
      exact ⟨_, mem_packedItems.mpr ⟨e, he, rfl⟩, rfl⟩
  constructor
  · intro hall i e he
    obtain ⟨u, hu, hdp, ht⟩ := exists_of_uploadKeys h.keys
    obtain ⟨hmem, hrdp⟩ := (hrow _).mpr ⟨i, e, he, rfl⟩
    obtain ⟨i', size, p, data, hid, hsize, hp, hdata, hun⟩ := hall u hu ht _ hmem hrdp
    obtain rfl : i = i' := Nat.add_left_cancel hid
    obtain rfl := Option.some.inj ((h.sizes u hu hdp).symm.trans hsize)
    rw [binaryFormat_natCast] at hp
    cases hp
    have hsame := Except.ok.inj ((hunpack i e he).symm.trans hun)
    rw [hdata, (Prod.mk.inj hsame).2]
  · intro hall u hu ht r hr hdp
    obtain ⟨i, e, he, rfl⟩ := (hrow r).mp ⟨hr, hdp⟩
    obtain ⟨hudp, -, -⟩ := of_uploadKeys h.keys h.fresh hu ht
    exact ⟨i, s, ⟨s⟩, fit s e, rfl, h.sizes u hu hudp, binaryFormat_natCast s, hall i e he,
      hunpack i e he⟩

end Completed

section Outcomes
variable {settings : Settings} {projectId : ProjectId} {dpId : DpId} {token : Token} {w w' : World}
  {uploaded : ℕ → Option Bytes}

theorem faithful_of_ready {o : Outcome} (h : o.db.ReadyUpload token) :
    Faithful dpId token uploaded o ↔ StoredUnaltered o.db dpId token uploaded :=
  ⟨fun hf => hf.ready h, fun hs => ⟨fun _ => hs, fun hn => absurd h hn⟩⟩

theorem faithful_of_failed {o : Outcome} (hready : ¬ o.db.ReadyUpload token)
    (hfailed : o.rejected = true ∨ o.db.FailedUpload token) : Faithful dpId token uploaded o :=
  ⟨fun h => absurd h hready, fun _ => hfailed⟩

theorem externalEncoding_of_read {file : ExternalFile} {object : ExternalObject} {size count : ℕ}
    {encodings : List Bytes} {i : ℕ} {e : Bytes} (hobject : w.objects.get? file = some object)
    (hsize : object.hashSize = .ok (size : ℤ))
    (hread : objectEncodings (isJson file) object.clks object.data size count = .ok encodings)
    (he : encodings[i]? = some e) : externalEncoding w file i = some e := by
  unfold externalEncoding
  unfold objectEncodings at hread
  rw [hobject, Option.bind_eq_bind, Option.bind_some]
  cases hjson : isJson file with
  | true =>
    rw [hjson, if_pos rfl] at hread
    obtain ⟨encoding, hget, hdecode⟩ := mapM_getElem? hread he
    rw [List.getElem?_take] at hget
    split_ifs at hget
    rw [if_pos rfl, hget, Option.bind_eq_bind, Option.bind_some, hdecode]
    rfl
  | false =>
    rw [hjson, if_neg (by decide)] at hread
    cases hread
    unfold binaryPieces at he
    rw [List.getElem?_map] at he
    obtain ⟨j, hj, rfl⟩ := Option.map_eq_some_iff.mp he
    obtain ⟨hlt, rfl⟩ := List.getElem?_eq_some_iff.mp hj
    rw [List.getElem_range, if_neg (by decide), hsize]
    rfl

theorem forall_fit_iff {encodings : List Bytes} {size : ℕ}
    (h : ∀ i e, encodings[i]? = some e → uploaded i = some e) :
    (∀ i e, encodings[i]? = some e → uploaded i = some (fit size e)) ↔
      ∀ e ∈ encodings, e.length = size := by
  constructor
  · intro hall e he
    obtain ⟨i, hi⟩ := List.mem_iff_getElem?.mp he
    exact fit_eq_self_iff.mp (Option.some.inj ((hall i e hi).symm.trans (h i e hi)))
  · intro hall i e hi
    rw [fit_of_length (hall e (List.mem_of_getElem? hi))]
    exact h i e hi

/-- An upload without blocks from the object store. -/
theorem faithful_encodingsOnly_iff (hcan : CanUpload w.db dpId token)
    (hproject : w.db.checkProjectExists projectId = true) (file : ExternalFile) :
    Faithful dpId token (externalEncoding w file)
        ⟨false,
          (runJob settings projectId dpId token (.pullExternalDataEncodingsOnly file) w).1.db⟩ ↔
      SizesDeclared settings w (.pullExternalDataEncodingsOnly file) := by
  rcases hrun : runJob settings projectId dpId token (.pullExternalDataEncodingsOnly file) w
    with ⟨w', r⟩
  rcases errback_cases hrun with ⟨b, htask⟩ | ⟨hready, hfailed⟩
  · obtain ⟨count, size, encodings, hread, hcompleted⟩ :=
      pullExternalDataEncodingsOnly_ok htask hcan.fresh (Or.inr hproject)
    obtain ⟨object, hobject, -, hsize, henc⟩ := hread.read
    rw [faithful_of_ready hcompleted.readyUpload,
      storedUnaltered_iff hcompleted hcan.vacant hread.length_le,
      forall_fit_iff fun i e he => externalEncoding_of_read hobject hsize henc he]
    constructor
    · intro hall count' size' encodings' hread' _ _
      obtain ⟨rfl, rfl⟩ := hread.unique hread'
      exact hall
    · intro hall
      exact hall count size encodings hread hcompleted.metadata.1 hcompleted.metadata.2
  · refine iff_of_true (faithful_of_failed hready (Or.inr hfailed)) ?_
    intro count size encodings hread hcount hsize
    obtain ⟨object, -, -, -, henc⟩ := hread.read
    have hlength : encodings.length ≤ 2 ^ 31 := by
      have hle := length_objectEncodings_le henc
      unfold Int4 at hcount
      omega
    obtain ⟨w1, b, hrun1, hready1⟩ := runJob_encodingsOnly_succeeds settings hcan
      hproject hread hcount hsize hlength
    have hw := congrArg Prod.fst (hrun.symm.trans hrun1)
    subst hw
    exact absurd hready1 hready

theorem faithful_blocks_iff (hcan : CanUpload w.db dpId token)
    (hproject : w.db.checkProjectExists projectId = true) (encodingFile blocksFile : ExternalFile) :
    Faithful dpId token (externalEncoding w encodingFile)
        ⟨false, (runJob settings projectId dpId token
          (.pullExternalData encodingFile blocksFile) w).1.db⟩ ↔
      SizesDeclared settings w (.pullExternalData encodingFile blocksFile) := by
  rcases hrun : runJob settings projectId dpId token (.pullExternalData encodingFile blocksFile) w
    with ⟨w', r⟩
  rcases errback_cases hrun with ⟨b, htask⟩ | ⟨hready, hfailed⟩
  · obtain ⟨pairs, object, count, size, n, items, hread, hne, hn, hitems, hnone, hcompleted⟩ :=
      pullExternalData_ok htask hcan.fresh (Or.inr hproject)
    rw [faithful_of_ready hcompleted.readyUpload]
    rcases lt_or_ge 0 n with hpos | hzero
    · obtain ⟨s, encodings, rfl, henc, hlen, hkeys, rfl⟩ := externalEncodings_eq_ok (hitems hpos)
      have hstorable := hcompleted.storableBlocks hread henc hkeys hne
      rw [storedUnaltered_iff hcompleted hcan.vacant hlen,
        forall_fit_iff fun i e he => externalEncoding_of_read hread.encodingObject hread.hashSize
          henc he]
      constructor
      · intro hall size' encodings' hstorable'
        obtain ⟨rfl, rfl⟩ := hstorable.unique hstorable'
        exact hall
      · exact fun hall => hall s encodings hstorable
    · -- the grouper stores nothing, which a size that is declared for encodings never leads to
      obtain rfl := hnone hzero
      refine iff_of_true ?_ ?_
      · intro u _ _ r hr hdp
        rw [hcompleted.stored, List.map_nil, List.append_nil] at hr
        exact absurd hdp (hcan.vacant.encodings r hr)
      · intro size' encodings' hstorable
        obtain ⟨pairs', object', count', hread', -⟩ := hstorable.read
        obtain rfl := Option.some.inj (hread.encodingObject.symm.trans hread'.encodingObject)
        obtain rfl := Except.ok.inj (hread.hashSize.symm.trans hread'.hashSize)
        obtain ⟨n', hn', hpos⟩ := settings.estimateGroupSize_natCast size'
        have hsame := Except.ok.inj (hn.symm.trans hn')
        omega
  · refine iff_of_true (faithful_of_failed hready (Or.inr hfailed)) ?_
    intro size encodings hstorable
    obtain ⟨w1, b, hrun1, hready1⟩ := runJob_blocks_succeeds hcan hproject hstorable
    have hw := congrArg Prod.fst (hrun.symm.trans hrun1)
    subst hw
    exact absurd hready1 hready

section Inline
variable {entries : List (List JsonScalar)}

/-- While its data waits, an upload has neither become ready nor failed. -/
theorem undecided_pendingUpload {db : Database} (hfresh : w.db.FreshToken token)
    (hdb : db.uploads = (pendingUpload settings w.db dpId token entries).uploads) :
    ¬ db.ReadyUpload token ∧ ¬ db.FailedUpload token := by
  unfold ReadyUpload FailedUpload
  rw [hdb]
  constructor
  · rintro ⟨r, hr, ht, hs⟩
    rcases List.mem_append.mp hr with hr | hr
    · exact hfresh.not_ready ⟨r, hr, ht, hs⟩
    · cases List.mem_singleton.mp hr
      cases hs
  · rintro ⟨r, hr, ht, hs⟩
    rcases List.mem_append.mp hr with hr | hr
    · exact hfresh.not_failed ⟨r, hr, ht, hs⟩
    · cases List.mem_singleton.mp hr
      cases hs

theorem failed_checkedUpload {db : Database} {size : ℤ} (hfresh : w.db.FreshToken token)
    (hkeys : db.uploadKeys = (pendingUpload settings w.db dpId token entries).uploadKeys)
    (hcheck : checkDataprovidersEncoding settings db projectId size = false) :
    ¬ (checkedUpload settings db projectId dpId size).ReadyUpload token ∧
      (checkedUpload settings db projectId dpId size).FailedUpload token := by
  have hadded := hkeys.trans (uploadKeys_pendingUpload settings w.db dpId token entries)
  unfold checkedUpload
  rw [if_neg (by simp [hcheck])]
  have hmarked := (uploadKeys_updateEncodingMetadata db dpId (some "DELETED") .error).trans hadded
  have hstate : ∀ r ∈ (db.updateEncodingMetadata (some "DELETED") dpId .error).uploads,
      r.token = token → r.state = .error := by
    intro r hr ht
    exact state_updateEncodingMetadata db dpId hr (of_uploadKeys hmarked hfresh hr ht).1
  constructor
  · rintro ⟨r, hr, ht, hs⟩
    cases (hstate r hr ht).symm.trans hs
  · obtain ⟨r, hr, -, ht⟩ := exists_of_uploadKeys hmarked
    exact ⟨r, hr, ht, hstate r hr ht⟩

theorem faithful_inline_iff (hcan : CanUpload w.db dpId token)
    (hproject : w.db.checkProjectExists projectId = true) (hentries : Countable settings entries) :
    Faithful dpId token uploaded ⟨false, (runJob settings projectId dpId token .handleRawUpload
        (quarantined settings w dpId token entries)).1.db⟩ ↔
      EntriesUniform settings w projectId uploaded entries := by
  rcases hrun : runJob settings projectId dpId token .handleRawUpload
    (quarantined settings w dpId token entries) with ⟨w', r⟩
  have hfile : (quarantined settings w dpId token entries).quarantine.get?
      (RAW_FILENAME_FMT token) = some entries := Dict.get?_set_self _ _ _
  have hdp := exists_upload_quarantined settings w dpId token entries
  have hundecided : ∀ db : Database, db.uploads =
      (pendingUpload settings w.db dpId token entries).uploads →
      ¬ Faithful dpId token uploaded ⟨false, db⟩ := by
    intro db hdb hfaithful
    obtain ⟨hready, hfailed⟩ := undecided_pendingUpload hcan.fresh hdb
    rcases hfaithful.failed hready with hrejected | hfailed'
    · cases hrejected
    · exact hfailed hfailed'
  rcases handleRawUpload_cases hrun hproject hdp hfile with
    ⟨rfl, -, hnone⟩ | ⟨size, encodings, hread, hadm, hfinish⟩
  · -- the task has stopped before it stored anything, and nothing records that it failed
    refine iff_of_false (hundecided _ rfl) ?_
    rintro ⟨size, encodings, hread, -⟩
    exact hnone ⟨size, encodings, hread, admits_pendingUpload hcan hentries.length hread⟩
  · have huniform : EntriesUniform settings w projectId uploaded entries ↔
        if Int4 size then ∀ i e, encodings[i]? = some e → uploaded i = some (fit size e)
        else checkDataprovidersEncoding settings w.db projectId size = false := by
      constructor
      · rintro ⟨size', encodings', hread', huniform⟩
        obtain ⟨rfl, rfl⟩ := hread.unique hread'
        exact huniform
      · exact fun huniform => ⟨size, encodings, hread, huniform⟩
    rw [huniform]
    rcases finishRawUpload_cases hfinish hproject hdp with
      ⟨hbig, -, rfl⟩ | ⟨hsize, -, db, hsave, rfl⟩
    · rw [if_neg hbig]
      cases hcheck : checkDataprovidersEncoding settings w.db projectId size with
      | false =>
        have hkeys : ((pendingUpload settings w.db dpId token entries).addItems dpId
            (inlineItems settings entries size encodings)).uploadKeys =
              (pendingUpload settings w.db dpId token entries).uploadKeys := rfl
        obtain ⟨hready, hfailed⟩ := failed_checkedUpload hcan.fresh hkeys hcheck
        exact iff_of_true (faithful_of_failed hready (Or.inr hfailed)) rfl
      | true =>
        have hfits : checkDataprovidersEncoding settings ((quarantined settings w dpId token
            entries).db.addItems dpId (inlineItems settings entries size encodings)) projectId
              size = true := hcheck
        have hdb := checkedUpload_of_fits dpId hfits
        exact iff_of_false (hundecided _ (by simp only [hdb]; rfl)) (by simp)
    · rw [if_pos hsize]
      have hcompleted := saveUpload_ok hcan.fresh hentries hsize hadm hsave
      rw [faithful_of_ready hcompleted.readyUpload]
      exact storedUnaltered_iff hcompleted hcan.vacant hread.length_le

/-- Entries in the order in which their encodings were uploaded are intact when all encodings
have the size of the first. -/
theorem entriesUniform_iff (horder : ∀ size encodings, ReadEntries entries size encodings →
    ∀ i e, encodings[i]? = some e → uploaded i = some e) :
    EntriesUniform settings w projectId uploaded entries ↔
      ∃ (size : ℕ) (encodings : List Bytes), ReadEntries entries size encodings ∧
        if Int4 size then ∀ e ∈ encodings, e.length = size
        else checkDataprovidersEncoding settings w.db projectId size = false := by
  unfold EntriesUniform
  refine exists_congr fun size => exists_congr fun encodings => and_congr_right fun hread => ?_
  rw [forall_fit_iff (horder size encodings hread)]

theorem getElem?_flatMap_take_one {i : ℕ} (h : [] ∉ entries) :
    (entries.flatMap (List.take 1))[i]? = entries[i]? >>= List.head? := by
  induction entries generalizing i with
  | nil => rfl
  | cons entry entries ih =>
    obtain ⟨hne, hentries⟩ := not_or.mp (fun hm => h (List.mem_cons.mpr hm))
    cases entry with
    | nil => exact absurd rfl hne
    | cons b64Encoding blocks =>
      cases i with
      | zero => rfl
      | succ i => exact ih hentries

theorem encoding_of_readEntries {clkJson : ClkJson} {usesBlocking : Bool} {size : ℕ}
    {encodings : List Bytes} (hnone : clkJson.encodings = none)
    (hentries : inlineEntries usesBlocking clkJson = .ok entries)
    (hread : ReadEntries entries size encodings) {i : ℕ} {e : Bytes} (he : encodings[i]? = some e) :
    (Upload.json clkJson usesBlocking).encoding settings w i = some e := by
  obtain ⟨entry, hentry, hdecode⟩ := mapM_getElem? hread.read he
  have hinline : clkJson.externalEncodings = none := by
    unfold ClkJson.externalEncodings
    rw [hnone]
    rfl
  have hnonempty : [] ∉ entries := by
    intro hnil
    obtain ⟨b, -, hb⟩ := (mapM_mem hread.read).2 [] hnil
    cases hb
  have hget : (clkJson.inlineEncodings usesBlocking)[i]? = entry.head? := by
    have hlisted : clkJson.clknblocks = some entries →
        ((clkJson.clknblocks.getD []).flatMap (List.take 1))[i]? = entry.head? := by
      intro hclknblocks
      rw [hclknblocks, Option.getD_some, getElem?_flatMap_take_one hnonempty, hentry]
      rfl
    unfold inlineEntries at hentries
    unfold ClkJson.inlineEncodings
    rw [hnone] at hentries ⊢
    cases usesBlocking with
    | true =>
      obtain ⟨entries', hclknblocks, h1⟩ := bind_eq_ok.mp hentries
      obtain ⟨_, -, h2⟩ := bind_eq_ok.mp h1
      cases h2
      exact hlisted (orRaise_eq_ok.mp hclknblocks)
    | false =>
      cases hclks : clkJson.clks with
      | none =>
        rw [hclks] at hentries
        obtain ⟨entries', hclknblocks, h1⟩ := bind_eq_ok.mp hentries
        obtain ⟨_, -, h2⟩ := bind_eq_ok.mp h1
        cases h2
        exact hlisted (orRaise_eq_ok.mp hclknblocks)
      | some clks =>
        rw [hclks] at hentries
        obtain ⟨_, -, h1⟩ := bind_eq_ok.mp hentries
        cases h1
        unfold convertClksToClknblocks at hentry
        rw [List.getElem?_map] at hentry
        obtain ⟨encoding, hencoding, rfl⟩ := Option.map_eq_some_iff.mp hentry
        exact hencoding
  unfold Upload.encoding
  simp only [hinline, hget]
  cases entry with
  | nil => cases hdecode
  | cons b64Encoding blocks =>
    have hread' : decodeScalar b64Encoding = .ok e := hdecode
    simp [hread', Except.toOption]

end Inline
end Outcomes

section Requests
variable {settings : Settings} {projectId : ProjectId} {dpId : DpId} {token : Token} {w : World}

theorem externalUpload_eq_ok {encodings : Encodings} {blocks : Option Blocks} {job : Job}
    (h : externalUpload projectId dpId encodings blocks = .ok job) :
    ∃ file, encodings.file = .ok file ∧ (job = .pullExternalDataEncodingsOnly file ∨
      ∃ blocksFile, job = .pullExternalData file blocksFile) := by
  cases blocks with
  | none =>
    obtain ⟨file, hfile, h1⟩ := bind_eq_ok.mp h
    obtain ⟨_, -, h2⟩ := bind_eq_ok.mp h1
    cases h2
    exact ⟨file, hfile, Or.inl rfl⟩
  | some blocks =>
    obtain ⟨file, hfile, h1⟩ := bind_eq_ok.mp h
    obtain ⟨_, -, h2⟩ := bind_eq_ok.mp h1
    obtain ⟨_, -, h3⟩ := bind_eq_ok.mp h2
    obtain ⟨blocksFile, -, h4⟩ := bind_eq_ok.mp h3
    obtain ⟨_, -, h5⟩ := bind_eq_ok.mp h4
    cases h5
    exact ⟨file, hfile, Or.inr ⟨blocksFile, rfl⟩⟩

theorem readObject_withDb {db : Database} {file : ExternalFile} {count : ℤ} {size : ℕ}
    {encodings : List Bytes} :
    ReadObject { w with db := db } file count size encodings ↔
      ReadObject w file count size encodings :=
  ⟨fun h => ⟨h.read, h.length_le⟩, fun h => ⟨h.read, h.length_le⟩⟩

theorem storableBlocks_withDb {db : Database} {encodingFile blocksFile : ExternalFile} {size : ℕ}
    {encodings : List Bytes} :
    StorableBlocks settings { w with db := db } encodingFile blocksFile size encodings ↔
      StorableBlocks settings w encodingFile blocksFile size encodings := by
  constructor
  · rintro ⟨⟨pairs, object, count, ⟨h1, h2, h3, h4, h5⟩, hrest⟩, hsize⟩
    exact ⟨⟨pairs, object, count, ⟨h1, h2, h3, h4, h5⟩, hrest⟩, hsize⟩
  · rintro ⟨⟨pairs, object, count, ⟨h1, h2, h3, h4, h5⟩, hrest⟩, hsize⟩
    exact ⟨⟨pairs, object, count, ⟨h1, h2, h3, h4, h5⟩, hrest⟩, hsize⟩

/-- What a task reads from the object store does not depend on the database. -/
theorem sizesDeclared_withDb (db : Database) (job : Job) :
    SizesDeclared settings { w with db := db } job ↔ SizesDeclared settings w job := by
  cases job with
  | pullExternalDataEncodingsOnly file => simp only [SizesDeclared, readObject_withDb]
  | pullExternalData encodingFile blocksFile => simp only [SizesDeclared, storableBlocks_withDb]
  | handleRawUpload => exact Iff.rfl

theorem canUpload_setUploadState (other : DpId) (h : CanUpload w.db dpId token)
    (state : UploadedState) :
    CanUpload (w.db.setDataproviderUploadState other state) dpId token :=
  ⟨(sameData_setDataproviderUploadState w.db other state).vacant h.vacant, h.fresh, h.own, h.dp_lt⟩

/-- A JSON upload that is refused. -/
theorem intact_of_error {clkJson : ClkJson} {usesBlocking : Bool} {w1 : World} {e : Error}
    (hfresh : w.db.FreshToken token)
    (h : handleEncodingUploadJson settings projectId dpId clkJson token usesBlocking w =
      (w1, .error e)) : Intact settings w projectId dpId (.json clkJson usesBlocking) := by
  intro habort
  cases hexternal : clkJson.externalEncodings with
  | some encodings =>
    intro job hjob
    rw [handleEncodingUploadJson_of_ok habort, hexternal] at h
    simp only [hjob, Action.lift_apply] at h
    cases congrArg Prod.snd h
  | none =>
    intro entries hentries hcountable
    have hok : handleEncodingUploadJson settings projectId dpId clkJson token usesBlocking w =
        (quarantined settings w dpId token entries, .ok .handleRawUpload) :=
      (handleEncodingUploadJson_inline hexternal).mpr
        ⟨habort, entries, hentries, ⟨hfresh, hcountable⟩, rfl, rfl⟩
    cases congrArg Prod.snd (h.symm.trans hok)

theorem process_json_of_ok {clkJson : ClkJson} {usesBlocking : Bool} {w1 : World} {job : Job}
    (h : handleEncodingUploadJson settings projectId dpId clkJson token usesBlocking w =
      (w1, .ok job)) (hproject : w1.db.checkProjectExists projectId = true) :
    process settings projectId dpId token w (.json clkJson usesBlocking) =
      ⟨false, (runJob settings projectId dpId token job
        { w1 with db := w1.db.setDataproviderUploadState dpId .done }).1.db⟩ := by
  obtain ⟨check, hpost⟩ := projectClksPost_of_ok h hproject
  simp only [process, hpost]

/-- A JSON upload whose encodings lie in the object store. -/
theorem faithful_external_iff (hcan : CanUpload w.db dpId token)
    (hproject : w.db.checkProjectExists projectId = true) {clkJson : ClkJson} {usesBlocking : Bool}
    {encodings : Encodings} (hexternal : clkJson.externalEncodings = some encodings) {w1 : World}
    {job : Job} (h : handleEncodingUploadJson settings projectId dpId clkJson token usesBlocking w =
      (w1, .ok job)) :
    Faithful dpId token (fun i => (Upload.json clkJson usesBlocking).encoding settings w i)
        (process settings projectId dpId token w (.json clkJson usesBlocking)) ↔
      Intact settings w projectId dpId (.json clkJson usesBlocking) := by
  have habort := handleEncodingUploadJson_inconsistent h
  have hlift := h
  rw [handleEncodingUploadJson_of_ok habort, hexternal] at hlift
  obtain ⟨hjob, rfl⟩ := Action.lift_ok hlift
  rw [process_json_of_ok h hproject]
  have hdone := canUpload_setUploadState dpId hcan .done
  obtain ⟨file, hfile, hcases⟩ := externalUpload_eq_ok hjob
  have huploaded : (fun i => (Upload.json clkJson usesBlocking).encoding settings w1 i) =
      externalEncoding w1 file := by
    unfold Upload.encoding
    simp only [hexternal, hfile]
    rfl
  have hintact : Intact settings w1 projectId dpId (.json clkJson usesBlocking) ↔
      SizesDeclared settings w1 job := by
    unfold Intact
    simp only [hexternal, hjob]
    exact ⟨fun hall => hall habort job rfl, fun hall _ job' hjob' => by cases hjob'; exact hall⟩
  rw [huploaded, hintact, ← sizesDeclared_withDb (w1.db.setDataproviderUploadState dpId .done)]
  rcases hcases with rfl | ⟨blocksFile, rfl⟩
  · exact faithful_encodingsOnly_iff
      (w := { w1 with db := w1.db.setDataproviderUploadState dpId .done }) hdone hproject file
  · exact faithful_blocks_iff
      (w := { w1 with db := w1.db.setDataproviderUploadState dpId .done }) hdone hproject file
      blocksFile

/-- A JSON upload with inline encodings. -/
theorem faithful_entries_iff (hcan : CanUpload w.db dpId token)
    (hproject : w.db.checkProjectExists projectId = true) {clkJson : ClkJson} {usesBlocking : Bool}
    (hinline : clkJson.externalEncodings = none) {w1 : World}
    {job : Job} (h : handleEncodingUploadJson settings projectId dpId clkJson token usesBlocking w =
      (w1, .ok job)) :
    Faithful dpId token (fun i => (Upload.json clkJson usesBlocking).encoding settings w i)
        (process settings projectId dpId token w (.json clkJson usesBlocking)) ↔
      Intact settings w projectId dpId (.json clkJson usesBlocking) := by
  obtain ⟨habort, entries, hentries, ⟨-, hcountable⟩, rfl, rfl⟩ :=
    (handleEncodingUploadJson_inline hinline).mp h
  rw [process_json_of_ok h hproject]
  have hdone := canUpload_setUploadState dpId hcan .done
  refine (faithful_inline_iff (w := { w with db := w.db.setDataproviderUploadState dpId .done })
    hdone hproject hcountable).trans ?_
  unfold Intact
  simp only [hinline, hentries]
  constructor
  · rintro huniform _ entries' hentries' _
    cases hentries'
    exact huniform
  · exact fun hall => hall habort entries rfl hcountable

/-- No piece of a binary upload is short. -/
theorem length_piece {data : Bytes} {size i : ℕ} {count : ℤ} (h : (data.length : ℤ) = size * count)
    (hi : i < count.toNat) : ((data.drop (i * size)).take size).length = size := by
  obtain ⟨n, rfl⟩ := Int.eq_ofNat_of_zero_le (show 0 ≤ count by omega)
  rw [Int.toNat_natCast] at hi
  have hlength : data.length = size * n := by exact_mod_cast h
  have hle : (i + 1) * size ≤ n * size := Nat.mul_le_mul_right size hi
  rw [List.length_take, List.length_drop, hlength, min_eq_left]
  rw [Nat.add_mul, Nat.one_mul] at hle
  rw [Nat.mul_comm size n]
  omega

/-- A binary upload is stored as it is, or refused. -/
theorem faithful_binary (hcan : CanUpload w.db dpId token)
    (hproject : w.db.checkProjectExists projectId = true) (headers : BinaryHeaders) (data : Bytes) :
    Faithful dpId token (fun i => (Upload.binary headers data).encoding settings w i)
      (process settings projectId dpId token w (.binary headers data)) := by
  rcases h : handleBinaryUpload settings projectId dpId headers data token w with ⟨w1, e | u⟩
  · have hready := handleBinaryUpload_error h hcan.fresh
    simp only [process, projectBinaryclksPost_of_error h]
    exact faithful_of_failed hready (Or.inl rfl)
  · obtain ⟨count, size, haccepted, hlen, hcompleted⟩ := handleBinaryUpload_ok h
    have hexists : w1.db.checkProjectExists projectId = true := by
      unfold checkProjectExists
      rw [hcompleted.parties.1]
      exact hproject
    obtain ⟨check, hpost⟩ := projectBinaryclksPost_of_ok h hexists
    simp only [process, hpost]
    refine (faithful_of_ready hcompleted.readyUpload).mpr ?_
    refine (storedUnaltered_iff hcompleted hcan.vacant hlen).mpr fun i e he => ?_
    unfold binaryPieces at he
    rw [List.getElem?_map] at he
    obtain ⟨j, hj, rfl⟩ := Option.map_eq_some_iff.mp he
    obtain ⟨hlt, rfl⟩ := List.getElem?_eq_some_iff.mp hj
    rw [List.getElem_range]
    have hi : i < count.toNat := by simpa using hlt
    rw [fit_of_length (length_piece haccepted.length hi)]
    unfold Upload.encoding
    simp only [haccepted.headers]
    rfl

/-- An upload leads to exactly what was uploaded, or to an error, exactly when it is intact. -/
theorem faithful_iff (hcan : CanUpload w.db dpId token)
    (hproject : w.db.checkProjectExists projectId = true) (upload : Upload) :
    Faithful dpId token (fun i => upload.encoding settings w i)
      (process settings projectId dpId token w upload) ↔
        Intact settings w projectId dpId upload := by
  cases upload with
  | binary headers data => exact iff_of_true (faithful_binary hcan hproject headers data) trivial
  | json clkJson usesBlocking =>
    rcases h : handleEncodingUploadJson settings projectId dpId clkJson token usesBlocking w with
      ⟨w1, e | job⟩
    · refine iff_of_true ?_ (intact_of_error hcan.fresh h)
      obtain ⟨w', e', hpost, huploads⟩ := projectClksPost_of_error h
      have hready : ¬ w'.db.ReadyUpload token := by
        unfold ReadyUpload
        rw [huploads]
        exact hcan.fresh.not_ready
      simp only [process, hpost]
      exact faithful_of_failed hready (Or.inl rfl)
    · cases hexternal : clkJson.externalEncodings with
      | some encodings => exact faithful_external_iff hcan hproject hexternal h
      | none => exact faithful_entries_iff hcan hproject hexternal h

/-- A provider uploads the encoding `A` and a second one. -/
def twoClks (second : List Char) : Upload :=
  .json ⟨some [.str "QQ==".toList, .str second], none, none, none⟩ false

theorem intact_twoClks_iff {second : List Char} {e : Bytes} (h : deserializeBytes second = .ok e) :
    Intact defaultSettings ⟨newProject false, Dict.empty, Dict.empty⟩ "project" 1 (twoClks second) ↔
      e.length = 1 := by
  have hread : ReadEntries [[.str "QQ==".toList, .str ['1']], [.str second, .str ['1']]] 1
      [[65], e] := by
    have hsecond : readEntry [.str second, .str ['1']] = .ok e := h
    have hfirst : readEntry [.str "QQ==".toList, .str ['1']] = .ok [65] := rfl
    refine ⟨?_, rfl, ?_⟩
    · rw [List.mapM_cons, hfirst, ok_bind, List.mapM_cons, hsecond]
      rfl
    · simp
  have hcountable : Countable defaultSettings
      [[.str "QQ==".toList, .str ['1']], [.str second, .str ['1']]] :=
    countable_of_length (by simp) (by simp) (by simp)
  have hentries : inlineEntries false ⟨some [.str "QQ==".toList, .str second], none, none, none⟩ =
      .ok [[.str "QQ==".toList, .str ['1']], [.str second, .str ['1']]] := rfl
  have huniform : EntriesUniform defaultSettings ⟨newProject false, Dict.empty, Dict.empty⟩
      "project" (fun i => (twoClks second).encoding defaultSettings
        ⟨newProject false, Dict.empty, Dict.empty⟩ i)
      [[.str "QQ==".toList, .str ['1']], [.str second, .str ['1']]] ↔ e.length = 1 := by
    refine (entriesUniform_iff fun size encodings hread i e he =>
      encoding_of_readEntries rfl hentries hread he).trans ?_
    constructor
    · rintro ⟨size, encodings, hread', hsizes⟩
      obtain ⟨rfl, rfl⟩ := hread.unique hread'
      rw [if_pos (by decide)] at hsizes
      exact hsizes e (by simp)
    · intro he
      refine ⟨1, _, hread, ?_⟩
      rw [if_pos (by decide)]
      simpa using he
  rw [← huniform]
  constructor
  · exact fun hintact => hintact rfl _ hentries hcountable
  · intro huniform _ entries' hentries' _
    cases hentries.symm.trans hentries'
    exact huniform

theorem faithful_twoClks_oneSize :
    Faithful 1 "receipt" (fun i => (twoClks "Qg==".toList).encoding defaultSettings
        ⟨newProject false, Dict.empty, Dict.empty⟩ i)
      (process defaultSettings "project" 1 "receipt" ⟨newProject false, Dict.empty, Dict.empty⟩
        (twoClks "Qg==".toList)) :=
  (faithful_iff (w := ⟨newProject false, Dict.empty, Dict.empty⟩)
    (canUpload_newProject false (show (1 : ℕ) < 2 ^ 31 by decide) "receipt") rfl
    (twoClks "Qg==".toList)).mpr ((intact_twoClks_iff rfl).mpr rfl)

/-- The second encoding is longer than the first: its last byte is lost. -/
theorem not_faithful_twoClks_twoSizes :
    ¬ Faithful 1 "receipt" (fun i => (twoClks "QUI=".toList).encoding defaultSettings
        ⟨newProject false, Dict.empty, Dict.empty⟩ i)
      (process defaultSettings "project" 1 "receipt" ⟨newProject false, Dict.empty, Dict.empty⟩
        (twoClks "QUI=".toList)) := by
  have hcan := canUpload_newProject false (show (1 : ℕ) < 2 ^ 31 by decide) "receipt"
  have hcountable : Countable defaultSettings
      [[.str "QQ==".toList, .str ['1']], [.str "QUI=".toList, .str ['1']]] :=
    countable_of_length (by simp) (by simp) (by simp)
  have hview : handleEncodingUploadJson defaultSettings "project" 1
      ⟨some [.str "QQ==".toList, .str "QUI=".toList], none, none, none⟩ "receipt" false
      ⟨newProject false, Dict.empty, Dict.empty⟩ = (_, .ok .handleRawUpload) :=
    (handleEncodingUploadJson_inline rfl).mpr ⟨rfl, _, rfl, ⟨hcan.fresh, hcountable⟩, rfl, rfl⟩
  intro hfaithful
  have hintact := (faithful_entries_iff hcan rfl rfl hview).mp hfaithful
  have hlength := (intact_twoClks_iff (show deserializeBytes "QUI=".toList = .ok [65, 66] by
    decide)).mp hintact
  cases hlength

end Requests
end EntityService.Views
