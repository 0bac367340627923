import EntityService.Tasks.Scheduling
import EntityService.Views.Ingest

/-! Projects without blocking: which block an upload ends up in, and when two datasets are
compared in full. -/
namespace EntityService.Views
open Lib Database Tasks

variable {settings : Settings} {projectId : ProjectId} {dpId : DpId} {token : Token} {w w' : World}

def Upload.WithoutBlocking : Upload → Prop
  | .json _ usesBlocking => usesBlocking = false
  | .binary _ _ => True

/-- Whether the encodings are part of a JSON document. -/
def Upload.inline : Upload → Bool
  | .json clkJson _ => clkJson.externalEncodings.isNone
  | .binary _ _ => false

/-- The name under which the one block of an upload is stored: the views hash the default name
of inline encodings, the other paths do not. -/
def Upload.blockName (settings : Settings) (upload : Upload) : BlockName :=
  if upload.inline then hashBlockName settings.blake2b (.str ['1']) else DEFAULT_BLOCK_ID

/-- An external JSON object has at least the declared number of encodings. -/
def Upload.Supplied (w : World) : Upload → Prop
  | .json clkJson _ => ∀ encodings file object count, clkJson.externalEncodings = some encodings →
      encodings.file = .ok file → isJson file = true → w.objects.get? file = some object →
        object.hashCount = .ok count → count ≤ object.clks.length
  | .binary _ _ => True

def datasetSize (db : Database) (dpId : DpId) : ℕ :=
  (db.encodings.filter (fun r => r.dp = dpId)).length

/-- Two providers have one block name in common, and each record of the one is compared once
with each record of the other. -/
structure FullyCompared (db : Database) (dpIds : List DpId) (dp1 dp2 : DpId) : Prop where
  common : ∃! name, name ∈ (db.getBlockMetadata dp1).map Prod.fst ∧
    name ∈ (db.getBlockMetadata dp2).map Prod.fst
  compared : ∀ (so : SetOrder) (split : SplitToChunks) (chunkSizeAim : ℕ), 1 ≤ chunkSizeAim →
    ∃ packages, Scheduled so split db dpIds chunkSizeAim packages ∧ ∀ i j,
      timesCompared packages (dp1, i) (dp2, j) =
        if i < datasetSize db dp1 ∧ j < datasetSize db dp2 then 1 else 0

theorem iff_of_ite_eq {p q : Prop} [Decidable p] [Decidable q]
    (h : (if p then 1 else 0) = if q then 1 else 0) : p ↔ q := by
  by_cases hp : p
  · by_cases hq : q
    · exact iff_of_true hp hq
    · rw [if_pos hp, if_neg hq] at h
      cases h
  · by_cases hq : q
    · rw [if_neg hp, if_pos hq] at h
      cases h
    · exact iff_of_false hp hq

theorem lengths_eq {c1 c2 n1 n2 : ℕ} (h1 : 0 < n1) (h2 : 0 < n2)
    (h : ∀ i j, (i < c1 ∧ j < c2) ↔ i < n1 ∧ j < n2) : c1 = n1 ∧ c2 = n2 := by
  obtain ⟨hc1, hc2⟩ := (h 0 0).mpr ⟨h1, h2⟩
  constructor
  · refine Nat.le_antisymm (not_lt.mp fun hlt => ?_) (not_lt.mp fun hlt => ?_)
    · exact absurd ((h n1 0).mp ⟨hlt, hc2⟩).1 (lt_irrefl _)
    · exact absurd ((h c1 0).mpr ⟨hlt, h2⟩).1 (lt_irrefl _)
  · refine Nat.le_antisymm (not_lt.mp fun hlt => ?_) (not_lt.mp fun hlt => ?_)
    · exact absurd ((h 0 n2).mp ⟨hc1, hlt⟩).2 (lt_irrefl _)
    · exact absurd ((h 0 c2).mpr ⟨h1, hlt⟩).2 (lt_irrefl _)

/-- Datasets in one block each are fully compared when their blocks have the same name and the
sizes of the datasets. -/
theorem fullyCompared_iff_of_onlyBlock {db : Database} {dpIds : List DpId} {dp1 dp2 : DpId}
    {name1 name2 : BlockName} {size1 size2 : ℕ} (hdistinct : dpIds.Nodup) (hmem1 : dp1 ∈ dpIds)
    (hmem2 : dp2 ∈ dpIds) (hne : dp1 ≠ dp2) (h1 : OnlyBlock db dp1 name1 size1)
    (h2 : OnlyBlock db dp2 name2 size2) (hpos1 : 0 < datasetSize db dp1)
    (hpos2 : 0 < datasetSize db dp2) :
    FullyCompared db dpIds dp1 dp2 ↔
      name1 = name2 ∧ size1 = datasetSize db dp1 ∧ size2 = datasetSize db dp2 := by
  have hnames1 : (db.getBlockMetadata dp1).map Prod.fst = [name1] := by
    obtain ⟨id, hid⟩ := h1
    rw [hid]
    rfl
  have hnames2 : (db.getBlockMetadata dp2).map Prod.fst = [name2] := by
    obtain ⟨id, hid⟩ := h2
    rw [hid]
    rfl
  constructor
  · intro h
    obtain ⟨name, ⟨hin1, hin2⟩, -⟩ := h.common
    rw [hnames1, List.mem_singleton] at hin1
    rw [hnames2, List.mem_singleton] at hin2
    have hname := hin1.symm.trans hin2
    obtain ⟨packages, hscheduled, htimes⟩ := h.compared .same unitSplit 1 le_rfl
    obtain ⟨packages', hscheduled', htimes'⟩ :=
      timesCompared_eq hdistinct hmem1 hmem2 hne h1 h2 .same unitSplit le_rfl
    obtain rfl := hscheduled.unique hscheduled'
    refine ⟨hname, lengths_eq hpos1 hpos2 fun i j => ?_⟩
    have hij := (htimes' i j).symm.trans (htimes i j)
    simp only [hname, true_and] at hij
    exact iff_of_ite_eq hij
  · rintro ⟨rfl, rfl, rfl⟩
    refine ⟨⟨name1, ?_, ?_⟩, fun so split chunkSizeAim haim => ?_⟩
    · rw [hnames1, hnames2]
      exact ⟨List.mem_cons_self, List.mem_cons_self⟩
    · rintro name ⟨hin, -⟩
      rw [hnames1] at hin
      exact List.mem_singleton.mp hin
    · obtain ⟨packages, hscheduled, htimes⟩ :=
        timesCompared_eq hdistinct hmem1 hmem2 hne h1 h2 so split haim
      refine ⟨packages, hscheduled, fun i j => ?_⟩
      rw [htimes]
      simp only [true_and]

section Ingestion

theorem withoutBlocks_of_consistent {clkJson : ClkJson}
    (h : abortIfInconsistentUpload false clkJson = .ok ()) :
    clkJson.clknblocks = none ∧ clkJson.blocks = none := by
  unfold abortIfInconsistentUpload at h
  by_cases hblocks : clkJson.clknblocks.isSome ∨ clkJson.blocks.isSome
  · rw [if_neg (by simp), if_pos ⟨by simp, hblocks⟩] at h
    cases h
  · simpa using hblocks

/-- A project without blocking takes a JSON document for a plain list of encodings. -/
theorem inlineEntries_withoutBlocking {clkJson : ClkJson} {entries : List (List JsonScalar)}
    (habort : abortIfInconsistentUpload false clkJson = .ok ())
    (h : inlineEntries false clkJson = .ok entries) :
    entries ≠ [] ∧ ∃ encodings, entries = convertClksToClknblocks encodings := by
  have hplain := withoutBlocks_of_consistent habort
  have hlength : ∀ {l : List JsonScalar}, 1 ≤ l.length → convertClksToClknblocks l ≠ [] := by
    rintro l hl hnil
    rw [List.map_eq_nil_iff.mp hnil] at hl
    cases hl
  unfold inlineEntries at h
  cases hencodings : clkJson.encodings with
  | some encodings =>
    rw [hencodings] at h
    cases encodings with
    | array l =>
      obtain ⟨entries', hconvert, h1⟩ := bind_eq_ok.mp h
      obtain ⟨_, hensure, h2⟩ := bind_eq_ok.mp h1
      cases h2
      rw [hplain.2] at hconvert
      cases hconvert
      have hl := ensure_eq_ok.mp hensure
      rw [List.length_map] at hl
      exact ⟨hlength hl, l, rfl⟩
    | external file => cases h
  | none =>
    rw [hencodings] at h
    cases hclks : clkJson.clks with
    | some clks =>
      rw [hclks] at h
      obtain ⟨_, hensure, h1⟩ := bind_eq_ok.mp h
      cases h1
      exact ⟨hlength (ensure_eq_ok.mp hensure), clks, rfl⟩
    | none =>
      rw [hclks, hplain.1] at h
      cases h

theorem counted_replicate {name : BlockName} {n : ℕ} (h : n ≠ 0) :
    counted (List.replicate n name) = [(name, (n : ℤ))] := by
  have hall : ∀ b ∈ counted (List.replicate n name), b = (name, (n : ℤ)) := by
    intro b hb
    obtain ⟨hname, hcount⟩ := mem_counted.mp hb
    obtain rfl := List.eq_of_mem_replicate hname
    rw [List.count_replicate_self] at hcount
    exact Prod.ext rfl hcount
  have hmem : (name, (n : ℤ)) ∈ counted (List.replicate n name) :=
    mem_counted.mpr ⟨List.mem_replicate.mpr ⟨h, rfl⟩, by rw [List.count_replicate_self]⟩
  have hnodup : (counted (List.replicate n name)).Nodup :=
    List.Nodup.of_map Prod.fst (nodup_counted _)
  have hrepeated := List.eq_replicate_of_mem hall
  have hle : (counted (List.replicate n name)).length ≤ 1 := by
    rw [hrepeated, List.nodup_replicate] at hnodup
    exact hnodup
  have hpos := List.length_pos_of_mem hmem
  have hone : (counted (List.replicate n name)).length = 1 := by omega
  rw [hrepeated, hone]
  rfl

theorem listedNames_withoutBlocking (blake2b : Blake2b) (encodings : List JsonScalar) :
    listedNames blake2b (convertClksToClknblocks encodings) =
      List.replicate encodings.length (hashBlockName blake2b (.str ['1'])) := by
  induction encodings with
  | nil => rfl
  | cons encoding encodings ih =>
    rw [List.length_cons, List.replicate_succ, ← ih]
    rfl

theorem onlyBlock_of_completed {db db' : Database} {count size : ℤ} {name : BlockName} {n : ℕ}
    {items : List Item} (h : Completed db db' dpId token count size [(name, (n : ℤ))] items)
    (hvacant : db.Vacant dpId) : OnlyBlock db' dpId name n := by
  refine ⟨db.nextBlockId, ?_⟩
  rw [(h.ingested hvacant).getBlockMetadata]
  rfl

theorem datasetSize_of_completed {db db' : Database} {count size : ℤ}
    {blocks : List (BlockName × ℤ)} {items : List Item}
    (h : Completed db db' dpId token count size blocks items) (hvacant : db.Vacant dpId) :
    datasetSize db' dpId = items.length := by
  unfold datasetSize
  rw [(h.ingested hvacant).encodings, List.length_map]

theorem ingest_inline {clkJson : ClkJson} {b : Bool} (hcan : CanUpload w.db dpId token)
    (hproject : w.db.checkProjectExists projectId = true)
    (hinline : clkJson.externalEncodings = none)
    (h : ingest settings projectId dpId token (.json clkJson false) w = (w', .ok b)) :
    OnlyBlock w'.db dpId (hashBlockName settings.blake2b (.str ['1']))
      (datasetSize w'.db dpId) := by
  obtain ⟨w1, ⟨job, check⟩, hpost, htask⟩ := Action.bind_eq_ok.mp h
  obtain ⟨w2, hview, rfl⟩ := projectClksPost_ok hpost
  obtain ⟨habort, entries, hentries, ⟨-, hcountable⟩, hjob, rfl⟩ :=
    (handleEncodingUploadJson_inline hinline).mp hview
  obtain ⟨hne, encodings, rfl⟩ := inlineEntries_withoutBlocking habort hentries
  cases hjob
  obtain ⟨size, data, hread, -, hcompleted⟩ := handleRawUpload_ok
    (w := { w with db := w.db.setDataproviderUploadState dpId .done }) htask hproject hcan.fresh
      hcountable
  have hlength : (convertClksToClknblocks encodings).length = encodings.length := List.length_map _
  have hpos : encodings.length ≠ 0 := by
    rw [← hlength]
    exact fun hzero => hne (List.length_eq_zero_iff.mp hzero)
  rw [listedNames_withoutBlocking, counted_replicate hpos] at hcompleted
  have hvacant := (canUpload_setUploadState dpId hcan .done).vacant
  have hitems : datasetSize w'.db dpId = encodings.length := by
    rw [datasetSize_of_completed hcompleted hvacant, ← hlength, ← hread.length_eq]
    simp [inlineItems, packedItems, numbered]
  rw [hitems]
  exact onlyBlock_of_completed hcompleted hvacant

theorem ingest_external {clkJson : ClkJson} {encodings : Encodings} {b : Bool}
    (hcan : CanUpload w.db dpId token) (hproject : w.db.checkProjectExists projectId = true)
    (hexternal : clkJson.externalEncodings = some encodings)
    (h : ingest settings projectId dpId token (.json clkJson false) w = (w', .ok b))
    (hne : 0 < datasetSize w'.db dpId) :
    ∃ count : ℕ, OnlyBlock w'.db dpId DEFAULT_BLOCK_ID count ∧
      (count = datasetSize w'.db dpId ↔ (Upload.json clkJson false).Supplied w) := by
  obtain ⟨w1, ⟨job, check⟩, hpost, htask⟩ := Action.bind_eq_ok.mp h
  obtain ⟨w2, hview, rfl⟩ := projectClksPost_ok hpost
  have habort := handleEncodingUploadJson_inconsistent hview
  rw [handleEncodingUploadJson_of_ok habort, hexternal] at hview
  obtain ⟨hjob, rfl⟩ := Action.lift_ok hview
  rw [(withoutBlocks_of_consistent habort).2] at hjob
  obtain ⟨file, hfile, hjob⟩ := bind_eq_ok.mp hjob
  obtain ⟨_, -, hjob⟩ := bind_eq_ok.mp hjob
  cases hjob
  have hdone := canUpload_setUploadState dpId hcan .done
  have htask := Action.handle_ok (fun e w1 w2 a hraise => by cases congrArg Prod.snd hraise) htask
  obtain ⟨count, size, data, hread, hcompleted⟩ :=
    pullExternalDataEncodingsOnly_ok htask hcan.fresh (Or.inr hproject)
  obtain ⟨object, hobject, hcount, -, hencodings⟩ := hread.read
  have hlength := length_objectEncodings hencodings
  have hsize : datasetSize w'.db dpId = data.length := by
    rw [datasetSize_of_completed hcompleted hdone.vacant]
    simp [packedItems, numbered]
  have hpos : 0 < count.toNat := by
    have hle := length_objectEncodings_le hencodings
    omega
  obtain ⟨c, rfl⟩ := Int.eq_ofNat_of_zero_le (show 0 ≤ count by omega)
  refine ⟨c, onlyBlock_of_completed hcompleted hdone.vacant, ?_⟩
  rw [hsize, hlength, Int.toNat_natCast]
  constructor
  · intro heq encodings' file' object' count' hencodings' hfile' hjson hobject' hcount'
    obtain rfl := Option.some.inj (hexternal.symm.trans hencodings')
    obtain rfl := Except.ok.inj (hfile.symm.trans hfile')
    obtain rfl := Option.some.inj (hobject.symm.trans hobject')
    obtain rfl := Except.ok.inj (hcount.symm.trans hcount')
    rw [if_pos hjson] at heq
    omega
  · intro hsupplied
    split_ifs with hjson
    · have hle := hsupplied encodings file object c hexternal hfile hjson hobject hcount
      omega
    · rfl

theorem ingest_binary {headers : BinaryHeaders} {data : Bytes} {b : Bool}
    (hcan : CanUpload w.db dpId token)
    (h : ingest settings projectId dpId token (.binary headers data) w = (w', .ok b))
    (hne : 0 < datasetSize w'.db dpId) :
    OnlyBlock w'.db dpId DEFAULT_BLOCK_ID (datasetSize w'.db dpId) := by
  obtain ⟨w1, u, hupload, rfl⟩ := projectBinaryclksPost_ok h
  obtain ⟨count, size, -, -, hcompleted⟩ := handleBinaryUpload_ok hupload
  have hsize : datasetSize w1.db dpId = count.toNat := by
    rw [datasetSize_of_completed hcompleted hcan.vacant]
    simp [packedItems, numbered, binaryPieces]
  have hpos : 0 < datasetSize w1.db dpId := hne
  obtain ⟨c, rfl⟩ := Int.eq_ofNat_of_zero_le (show 0 ≤ count by omega)
  have hc : datasetSize w1.db dpId = c := hsize.trans (Int.toNat_natCast c)
  change OnlyBlock w1.db dpId DEFAULT_BLOCK_ID (datasetSize w1.db dpId)
  rw [hc]
  exact onlyBlock_of_completed hcompleted hcan.vacant

/-- The block of an upload, and when its count is the number of its encodings. -/
theorem ingest_onlyBlock {upload : Upload} {b : Bool} (hcan : CanUpload w.db dpId token)
    (hproject : w.db.checkProjectExists projectId = true) (hplain : upload.WithoutBlocking)
    (h : ingest settings projectId dpId token upload w = (w', .ok b))
    (hne : 0 < datasetSize w'.db dpId) :
    ∃ count : ℕ, OnlyBlock w'.db dpId (upload.blockName settings) count ∧
      (count = datasetSize w'.db dpId ↔ upload.Supplied w) := by
  cases upload with
  | binary headers data => exact ⟨_, ingest_binary hcan h hne, iff_of_true rfl trivial⟩
  | json clkJson usesBlocking =>
    obtain rfl : usesBlocking = false := hplain
    cases hexternal : clkJson.externalEncodings with
    | none =>
      have hname : (Upload.json clkJson false).blockName settings =
          hashBlockName settings.blake2b (.str ['1']) := by
        simp [Upload.blockName, Upload.inline, hexternal]
      rw [hname]
      refine ⟨_, ingest_inline hcan hproject hexternal h, iff_of_true rfl ?_⟩
      intro encodings _ _ _ hencodings
      cases hexternal.symm.trans hencodings
    | some encodings =>
      have hname : (Upload.json clkJson false).blockName settings = DEFAULT_BLOCK_ID := by
        simp [Upload.blockName, Upload.inline, hexternal]
      rw [hname]
      exact ingest_external hcan hproject hexternal h hne

end Ingestion

theorem onlyBlock_untouched {db db' : Database} {name : BlockName} {n : ℕ}
    (h : OnlyBlock db dpId name n) (hu : Untouched dpId db db') : OnlyBlock db' dpId name n := by
  obtain ⟨id, hid⟩ := h
  exact ⟨id, hu.getBlockMetadata.trans hid⟩

theorem datasetSize_untouched {db db' : Database} (hu : Untouched dpId db db') :
    datasetSize db' dpId = datasetSize db dpId := by
  unfold datasetSize
  rw [hu.encodings]

theorem untouched_of_ingest {other : DpId} {upload : Upload} {b : Bool} (hne : other ≠ dpId)
    (h : ingest settings projectId other token upload w = (w', .ok b)) :
    Untouched dpId w.db w'.db := by
  have halone : Untouched dpId w.db (ingest settings projectId other token upload w).1.db :=
    LeavesAlone.ingest hne upload w
  rw [h] at halone
  exact halone

theorem blockName_eq_iff {upload1 upload2 : Upload} :
    upload1.blockName settings = upload2.blockName settings ↔ upload1.inline = upload2.inline := by
  have hhash : hashBlockName settings.blake2b (.str ['1']) ≠ DEFAULT_BLOCK_ID := by
    intro heq
    have hlength := congrArg List.length heq
    rw [hashBlockName, settings.blake2b.length_hexdigest] at hlength
    cases hlength
  unfold Upload.blockName
  cases upload1.inline <;> cases upload2.inline <;> simp [hhash, hhash.symm]

/-- In a project without blocking the datasets of two providers are compared in full exactly when
both were uploaded inline or neither was, and no external object is short of encodings. Other
providers may upload between the two and after them. -/
theorem fullyCompared_iff {dp1 dp2 : DpId} {token1 token2 : Token} {upload1 upload2 : Upload}
    {w1 w2 : World} {b1 b2 : Bool} {between after : List Submission} {dpIds : List DpId}
    (hne : dp1 ≠ dp2) (hplain1 : upload1.WithoutBlocking) (hplain2 : upload2.WithoutBlocking)
    (hproject : w.db.checkProjectExists projectId = true) (hcan1 : CanUpload w.db dp1 token1)
    (h1 : ingest settings projectId dp1 token1 upload1 w = (w1, .ok b1))
    (hbetween : ∀ s ∈ between, s.dpId ≠ dp1)
    (hcan2 : CanUpload (ingestAll settings between w1).db dp2 token2)
    (h2 : ingest settings projectId dp2 token2 upload2 (ingestAll settings between w1) =
      (w2, .ok b2))
    (hafter : ∀ s ∈ after, s.dpId ≠ dp1 ∧ s.dpId ≠ dp2) (hdistinct : dpIds.Nodup)
    (hmem1 : dp1 ∈ dpIds) (hmem2 : dp2 ∈ dpIds) (hpos1 : 0 < datasetSize w1.db dp1)
    (hpos2 : 0 < datasetSize w2.db dp2) :
    FullyCompared (ingestAll settings after w2).db dpIds dp1 dp2 ↔
      upload1.inline = upload2.inline ∧ upload1.Supplied w ∧
        upload2.Supplied (ingestAll settings between w1) := by
  have hfirst := untouched_of_ingest hne h1
  have hgap := untouched_ingestAll settings hbetween w1
  have hsecond := untouched_of_ingest hne.symm h2
  have hrest1 := untouched_ingestAll settings (fun s hs => (hafter s hs).1) w2
  have hrest2 := untouched_ingestAll settings (fun s hs => (hafter s hs).2) w2
  have hsince1 := (hgap.trans hsecond).trans hrest1
  have hproject2 : (ingestAll settings between w1).db.checkProjectExists projectId = true := by
    rw [hgap.checkProjectExists, hfirst.checkProjectExists]
    exact hproject
  obtain ⟨count1, honly1, hcount1⟩ := ingest_onlyBlock hcan1 hproject hplain1 h1 hpos1
  obtain ⟨count2, honly2, hcount2⟩ := ingest_onlyBlock hcan2 hproject2 hplain2 h2 hpos2
  rw [← datasetSize_untouched hsince1] at hcount1 hpos1
  rw [← datasetSize_untouched hrest2] at hcount2 hpos2
  rw [fullyCompared_iff_of_onlyBlock hdistinct hmem1 hmem2 hne (onlyBlock_untouched honly1 hsince1)
    (onlyBlock_untouched honly2 hrest2) hpos1 hpos2, blockName_eq_iff, hcount1, hcount2]

theorem canUpload_after {db db' : Database} {dp1 dp2 : DpId} {token1 token2 : Token}
    {count size : ℤ} {blocks : List (BlockName × ℤ)} {s : ℕ} {encodings : List Bytes}
    {names : ℕ → List BlockName}
    (h : Completed db db' dp1 token1 count size blocks (packedItems s encodings names))
    (hlen : encodings.length ≤ 2 ^ 32) (hu : Untouched dp2 db db') (hcan : CanUpload db dp2 token2)
    (hne : token1 ≠ token2) : CanUpload db' dp2 token2 where
  vacant := hu.vacant hcan.vacant
  fresh := by
    intro hmem
    obtain ⟨r, hr, ht⟩ := List.mem_map.mp hmem
    have hkey : (r.dp, r.token, r.count, r.blockCount) ∈ db'.uploadKeys := List.mem_map_of_mem hr
    rw [h.keys, List.mem_append, List.mem_singleton] at hkey
    rcases hkey with hkey | hkey
    · obtain ⟨r', hr', he⟩ := List.mem_map.mp hkey
      simp only [Prod.mk.injEq] at he
      exact hcan.fresh (List.mem_map.mpr ⟨r', hr', he.2.1.trans ht⟩)
    · simp only [Prod.mk.injEq] at hkey
      exact hne (hkey.2.1.symm.trans ht)
  own := by
    intro r hr
    rw [h.stored, List.mem_append] at hr
    rcases hr with hr | hr
    · exact hcan.own r hr
    · obtain ⟨item, hitem, rfl⟩ := List.mem_map.mp hr
      have hi := lt_of_mem_packedItems hitem
      exact encodingId_div (by omega)
  dp_lt := hcan.dp_lt

/-- The upload of the one encoding `A`. -/
def oneClk : Upload := .json ⟨some [.str "QQ==".toList], none, none, none⟩ false

/-- The upload is stored, whatever has been stored for other providers. -/
theorem ingest_oneClk (projectId : ProjectId) (hcan : CanUpload w.db dpId token)
    (hproject : w.db.checkProjectExists projectId = true) :
    ∃ w' b, ingest defaultSettings projectId dpId token oneClk w = (w', .ok b) ∧
      0 < datasetSize w'.db dpId ∧ ∀ {other : DpId} {token' : Token}, other ≠ dpId →
        token ≠ token' → CanUpload w.db other token' → CanUpload w'.db other token' := by
  have hread : ReadEntries (convertClksToClknblocks [.str "QQ==".toList]) 1 [[65]] :=
    ⟨rfl, rfl, by decide⟩
  have hcountable : Countable defaultSettings (convertClksToClknblocks [.str "QQ==".toList]) :=
    countable_of_length (by simp [convertClksToClknblocks]) (by simp [convertClksToClknblocks])
      (by simp [convertClksToClknblocks])
  have hview : handleEncodingUploadJson defaultSettings projectId dpId
      ⟨some [.str "QQ==".toList], none, none, none⟩ token false w = (_, .ok .handleRawUpload) :=
    (handleEncodingUploadJson_inline rfl).mpr ⟨rfl, _, rfl, ⟨hcan.fresh, hcountable⟩, rfl, rfl⟩
  obtain ⟨check, hpost⟩ := projectClksPost_of_ok hview hproject
  have hdone := canUpload_setUploadState dpId hcan .done
  obtain ⟨w', b, htask⟩ := handleRawUpload_succeeds defaultSettings
    (w := { w with db := w.db.setDataproviderUploadState dpId .done }) hdone hproject
      hcountable.length (by decide) hread
  obtain ⟨size, data, hread', -, hcompleted⟩ := handleRawUpload_ok htask hproject hdone.fresh
    hcountable
  have hingest : ingest defaultSettings projectId dpId token oneClk w = (w', .ok b) := by
    exact (Action.bind_of_ok hpost).trans htask
  refine ⟨w', b, hingest, ?_, fun hne htoken hother => ?_⟩
  · rw [datasetSize_of_completed hcompleted hdone.vacant]
    simp [inlineItems, packedItems, numbered, hread'.length_eq, convertClksToClknblocks]
  · have hu := untouched_of_ingest hne.symm hingest
    exact canUpload_after hcompleted hread'.length_le ⟨hu.projects, hu.blocks, hu.encodings,
      hu.encodingblocks⟩ (canUpload_setUploadState dpId hother .done) htoken

/-- The upload of the one encoding `B` as a binary document. -/
def oneBinary : Upload := .binary ⟨some ['1'], some ['1']⟩ [66]

theorem ingest_oneBinary (hcan : CanUpload w.db dpId token)
    (hproject : w.db.checkProjectExists projectId = true)
    (hschema : w.db.getProjectSchemaEncodingSize projectId = none) :
    ∃ w' b, ingest defaultSettings projectId dpId token oneBinary w = (w', .ok b) ∧
      0 < datasetSize w'.db dpId := by
  have haccepted : AcceptedBinary defaultSettings w projectId ⟨some ['1'], some ['1']⟩ [66] 1 1 :=
    ⟨rfl, by simp [hschema], rfl⟩
  obtain ⟨db, hupload, hprojects⟩ :=
    handleBinaryUpload_succeeds hcan haccepted (by decide) (by decide)
  have hexists : db.checkProjectExists projectId = true := by
    unfold checkProjectExists
    rw [hprojects]
    exact hproject
  obtain ⟨check, hpost⟩ := projectBinaryclksPost_of_ok hupload hexists
  obtain ⟨count, size, haccepted', -, hcompleted⟩ := handleBinaryUpload_ok hupload
  obtain ⟨rfl, rfl⟩ : count = 1 ∧ size = 1 := by
    have hheaders := Except.ok.inj (haccepted'.headers.symm.trans haccepted.headers)
    simp only [Prod.mk.injEq] at hheaders
    exact ⟨hheaders.1, by omega⟩
  refine ⟨_, check, hpost, ?_⟩
  change 0 < datasetSize db dpId
  rw [datasetSize_of_completed hcompleted hcan.vacant]
  simp [packedItems, numbered, binaryPieces]

/-- The first provider of a new project uploads an encoding, and the second one can still upload. -/
theorem ingest_oneClk_newProject : ∃ w1 b1,
    ingest defaultSettings "project" 1 "receipt-1" oneClk
      ⟨newProject false, Dict.empty, Dict.empty⟩ = (w1, .ok b1) ∧
    0 < datasetSize w1.db 1 ∧ w1.db.projects = (newProject false).projects ∧
      CanUpload w1.db 2 "receipt-2" := by
  have hcan1 := canUpload_newProject false (show (1 : ℕ) < 2 ^ 31 by decide) "receipt-1"
  have hcan2 := canUpload_newProject false (show (2 : ℕ) < 2 ^ 31 by decide) "receipt-2"
  obtain ⟨w1, b1, h1, hpos1, hother⟩ := ingest_oneClk
    (w := ⟨newProject false, Dict.empty, Dict.empty⟩) "project" hcan1 rfl
  have hsame1 := untouched_of_ingest (show (1 : ℕ) ≠ 2 by decide) h1
  exact ⟨w1, b1, h1, hpos1, hsame1.projects,
    hother (show (2 : ℕ) ≠ 1 by decide) (by decide) hcan2⟩

/-- Two providers that both upload inline. -/
theorem fullyCompared_twoClks : ∃ w1 w2 b1 b2,
    ingest defaultSettings "project" 1 "receipt-1" oneClk
      ⟨newProject false, Dict.empty, Dict.empty⟩ = (w1, .ok b1) ∧
    ingest defaultSettings "project" 2 "receipt-2" oneClk w1 = (w2, .ok b2) ∧
      FullyCompared w2.db [1, 2] 1 2 := by
  have hcan1 := canUpload_newProject false (show (1 : ℕ) < 2 ^ 31 by decide) "receipt-1"
  obtain ⟨w1, b1, h1, hpos1, hprojects, hcan2⟩ := ingest_oneClk_newProject
  have hproject : w1.db.checkProjectExists "project" = true := by
    unfold checkProjectExists
    rw [hprojects]
    rfl
  obtain ⟨w2, b2, h2, hpos2, -⟩ := ingest_oneClk "project" hcan2 hproject
  refine ⟨w1, w2, b1, b2, h1, h2, ?_⟩
  have hiff : FullyCompared (ingestAll defaultSettings [] w2).db [1, 2] 1 2 ↔
      oneClk.inline = oneClk.inline ∧ oneClk.Supplied ⟨newProject false, Dict.empty, Dict.empty⟩ ∧
        oneClk.Supplied (ingestAll defaultSettings [] w1) :=
    fullyCompared_iff (show (1 : ℕ) ≠ 2 by decide) rfl rfl rfl hcan1 h1 (by simp) hcan2 h2 (by simp)
      (by decide) (by decide) (by decide) hpos1 hpos2
  refine hiff.mpr ⟨rfl, ?_, ?_⟩
  · intro encodings _ _ _ hencodings
    cases hencodings
  · intro encodings _ _ _ hencodings
    cases hencodings

/-- One provider uploads inline and the other one a binary document: no block is common. -/
theorem not_fullyCompared_clkBinary : ∃ w1 w2 b1 b2,
    ingest defaultSettings "project" 1 "receipt-1" oneClk
      ⟨newProject false, Dict.empty, Dict.empty⟩ = (w1, .ok b1) ∧
    ingest defaultSettings "project" 2 "receipt-2" oneBinary w1 = (w2, .ok b2) ∧
      0 < datasetSize w2.db 1 ∧ 0 < datasetSize w2.db 2 ∧ ¬ FullyCompared w2.db [1, 2] 1 2 := by
  have hcan1 := canUpload_newProject false (show (1 : ℕ) < 2 ^ 31 by decide) "receipt-1"
  obtain ⟨w1, b1, h1, hpos1, hprojects, hcan2⟩ := ingest_oneClk_newProject
  have hproject : w1.db.checkProjectExists "project" = true := by
    unfold checkProjectExists
    rw [hprojects]
    rfl
  have hschema : w1.db.getProjectSchemaEncodingSize "project" = none := by
    unfold getProjectSchemaEncodingSize Database.findProject
    rw [hprojects]
    rfl
  obtain ⟨w2, b2, h2, hpos2⟩ := ingest_oneBinary hcan2 hproject hschema
  have hsame2 := untouched_of_ingest (show (2 : ℕ) ≠ 1 by decide) h2
  obtain ⟨count1, honly1, -⟩ := ingest_onlyBlock hcan1 rfl (show oneClk.WithoutBlocking from rfl)
    h1 hpos1
  obtain ⟨count2, honly2, -⟩ := ingest_onlyBlock hcan2 hproject
    (show oneBinary.WithoutBlocking from trivial) h2 hpos2
  rw [← datasetSize_untouched hsame2] at hpos1
  refine ⟨w1, w2, b1, b2, h1, h2, hpos1, hpos2, fun hcompared => ?_⟩
  have hnames := ((fullyCompared_iff_of_onlyBlock (by decide) (by decide) (by decide) (by decide)
    (onlyBlock_untouched honly1 hsame2) honly2 hpos1 hpos2).mp hcompared).1
  cases blockName_eq_iff.mp hnames

end EntityService.Views
