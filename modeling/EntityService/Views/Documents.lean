import EntityService.Tasks.Datasets
import EntityService.Tasks.ScoreFile
import EntityService.Views.Agreement
import EntityService.Views.Ingest

/-! From the documents that the data providers upload to the similarity scores of a run. -/
namespace EntityService.Views
open Lib Database Tasks Aggregation Similarity PackageResults ScoreFile

def InlineEntry.blockTexts (e : InlineEntry) : List (List Char) := e.blocks.map JsonScalar.text

/-- The block ids of the entry with a number. -/
def textsAt (document : List InlineEntry) (i : ℕ) : List (List Char) :=
  ((document[i]?).map InlineEntry.blockTexts).getD []

def documentEncodings (document : DpId → List InlineEntry) (dpId : DpId) : List Bytes :=
  (document dpId).map InlineEntry.encoding

/-- A provider without data uploads an inline document, in one of the three formats, and both the
view and its task end well. Other uploads go before it, and uploads of others come after it. -/
def Accepted (settings : Settings) (w : World) (submissions : List Submission) (dpId : DpId)
    (document : List InlineEntry) : Prop :=
  ∃ before s after clkJson usesBlocking, submissions = before ++ s :: after ∧ s.dpId = dpId ∧
    s.upload = .json clkJson usesBlocking ∧ clkJson.externalEncodings = none ∧
    inlineEntries usesBlocking clkJson = .ok (document.map InlineEntry.json) ∧
    (ingestAll settings before w).db.Vacant dpId ∧
    (ingestAll settings before w).db.checkProjectExists s.projectId = true ∧
    (∃ w' b, ingest settings s.projectId dpId s.token s.upload (ingestAll settings before w) =
      (w', .ok b)) ∧ ∀ t ∈ after, t.dpId ≠ dpId

/-- Documents of encodings of one size whose entries list no block twice, uploaded by different
providers. No two block ids have the same digest. -/
structure Documents (settings : Settings) (w : World) (submissions : List Submission)
    (dpIds : List DpId) (size : ℕ) (document : DpId → List InlineEntry) : Prop where
  distinct : dpIds.Nodup
  keys : (w.db.encodings.map EncodingRow.encodingId).Nodup
  accepted : ∀ dpId ∈ dpIds, Accepted settings w submissions dpId (document dpId)
  sizes : ∀ dpId ∈ dpIds, ∀ e ∈ document dpId, e.encoding.length = size
  once : ∀ dpId ∈ dpIds, ∀ e ∈ document dpId, e.blockTexts.Nodup
  digests : ∀ dpId ∈ dpIds, ∀ text ∈ (document dpId).flatMap InlineEntry.blockTexts,
    ∀ dpId' ∈ dpIds, ∀ text' ∈ (document dpId').flatMap InlineEntry.blockTexts,
      settings.blake2b.hexdigest text = settings.blake2b.hexdigest text' → text = text'

section Specification
variable {σ : Type} [LinearOrder σ] (value : σ ↪o ℚ) (dice : Bytes → Bytes → ℚ)
  (dpIds : List DpId) (document : DpId → List InlineEntry)

/-- Two records of an earlier and a later provider that list a block in common and are similar. -/
def SimilarRecords (threshold : ℚ) (pair : RecordId × RecordId) : Prop :=
  pair.1.1 < pair.2.1 ∧ ∃ dp1 dp2 e1 e2, dpIds[pair.1.1]? = some dp1 ∧
    dpIds[pair.2.1]? = some dp2 ∧ (document dp1)[pair.1.2]? = some e1 ∧
    (document dp2)[pair.2.2]? = some e2 ∧ (∃ text ∈ e1.blockTexts, text ∈ e2.blockTexts) ∧
    threshold ≤ dice e1.encoding e2.encoding

def recordsOfPart (dpId : DpId) (text : List Char) (range : Range) : List ℕ :=
  ((recordsListing (textsAt (document dpId)) (document dpId).length text).drop range.1).take
    (range.2 - range.1)

/-- Some comparison of parts of a block that hold the two records asks for as many matches of the
first as there are records in the second part that are at least as similar to it as the second. -/
def EnoughAsked (split : SplitToChunks) (chunkSizeAim : ℕ) (dp1 dp2 : DpId) (i j : ℕ) : Prop :=
  ∃ text, ∃ piece ∈ pieces split chunkSizeAim
      (recordsListing (textsAt (document dp1)) (document dp1).length text).length
      (recordsListing (textsAt (document dp2)) (document dp2).length text).length,
    i ∈ recordsOfPart document dp1 text piece.1 ∧ j ∈ recordsOfPart document dp2 text piece.2 ∧
    ((recordsOfPart document dp2 text piece.2).countP fun j' =>
      dice (encodingOf (documentEncodings document) dp1 i)
        (encodingOf (documentEncodings document) dp2 j) ≤
      dice (encodingOf (documentEncodings document) dp1 i)
        (encodingOf (documentEncodings document) dp2 j')) ≤
      min (recordsOfPart document dp1 text piece.1).length
        (recordsOfPart document dp2 text piece.2).length

/-- The candidate pairs of a run in terms of the uploaded documents: in order, similar records that
list a block in common, with their similarities, and all of those that no comparison cuts off. -/
structure DocumentScores (threshold : σ) (split : SplitToChunks) (chunkSizeAim : ℕ)
    (cs : List (CandidatePair σ)) : Prop where
  sorted : Sorted cs
  similar : ∀ c ∈ cs, SimilarRecords dice dpIds document (value threshold) (recordsOf c)
  similarity : ∀ c ∈ cs, ∀ dp1 dp2 e1 e2, dpIds[c.dsetI0.toNat]? = some dp1 →
    dpIds[c.dsetI1.toNat]? = some dp2 → (document dp1)[c.recI0.toNat]? = some e1 →
    (document dp2)[c.recI1.toNat]? = some e2 → value c.sim = dice e1.encoding e2.encoding
  complete : ∀ pair, SimilarRecords dice dpIds document (value threshold) pair →
    (∀ dp1 dp2, dpIds[pair.1.1]? = some dp1 → dpIds[pair.2.1]? = some dp2 →
      EnoughAsked dice document split chunkSizeAim dp1 dp2 pair.1.2 pair.2.2) →
    ∃ c ∈ cs, recordsOf c = pair

end Specification

section Ingested
variable {settings : Settings} {dpId : DpId} {entries : List InlineEntry} {size : ℕ}

theorem textsAt_of_getElem? {i : ℕ} {e : InlineEntry} (h : entries[i]? = some e) :
    textsAt entries i = e.blockTexts := by
  rw [textsAt, h]
  rfl

theorem encodingOf_documentEncodings {document : DpId → List InlineEntry} {dpId : DpId} {i : ℕ}
    {e : InlineEntry}
    (hget : (document dpId)[i]? = some e) :
    encodingOf (documentEncodings document) dpId i = e.encoding := by
  unfold encodingOf documentEncodings
  rw [List.getElem?_map, hget]
  rfl

theorem entryNames_eq_map (blake2b : Blake2b) (entries : List InlineEntry) (i : ℕ) :
    entryNames blake2b (entries.map InlineEntry.json) i =
      (textsAt entries i).map blake2b.hexdigest := by
  unfold entryNames textsAt
  rw [List.getElem?_map]
  cases entries[i]? with
  | none => rfl
  | some e =>
    show e.blocks.map (hashBlockName blake2b) = (e.blocks.map JsonScalar.text).map blake2b.hexdigest
    rw [List.map_map]
    rfl

theorem mem_flatMap_blockTexts {i : ℕ} {text : List Char} (h : text ∈ textsAt entries i) :
    text ∈ entries.flatMap InlineEntry.blockTexts := by
  unfold textsAt at h
  cases hget : entries[i]? with
  | none => rw [hget] at h; cases h
  | some e =>
    rw [hget] at h
    exact List.mem_flatMap.mpr ⟨e, List.mem_of_getElem? hget, h⟩

theorem listedNames_eq_flatMap (blake2b : Blake2b) (entries : List InlineEntry) :
    listedNames blake2b (entries.map InlineEntry.json) =
      (List.range entries.length).flatMap
        (entryNames blake2b (entries.map InlineEntry.json)) := by
  have hnames := flatMap_entryNames blake2b (entries.map InlineEntry.json)
  rw [List.length_map] at hnames
  exact hnames.symm

variable {projectId : ProjectId} {token : Token} {w w' : World} {clkJson : ClkJson}
  {usesBlocking : Bool} {b : Bool}

theorem ingested_of_ingest (hvacant : w.db.Vacant dpId)
    (hproject : w.db.checkProjectExists projectId = true)
    (hinline : clkJson.externalEncodings = none)
    (hentries : inlineEntries usesBlocking clkJson = .ok (entries.map InlineEntry.json))
    (hsize : ∀ e ∈ entries, e.encoding.length = size)
    (h : ingest settings projectId dpId token (.json clkJson usesBlocking) w = (w', .ok b)) :
    entries.length ≤ 2 ^ 32 ∧ ∃ first, w'.db.Ingested dpId first
      (counted ((List.range entries.length).flatMap
        (entryNames settings.blake2b (entries.map InlineEntry.json))))
      (packedItems size (entries.map InlineEntry.encoding)
        (entryNames settings.blake2b (entries.map InlineEntry.json))) := by
  obtain ⟨w1, ⟨job, check⟩, hpost, htask⟩ := Action.bind_eq_ok.mp h
  obtain ⟨w2, hview, rfl⟩ := projectClksPost_ok hpost
  obtain ⟨-, entries', hentries', ⟨hfresh, hcountable⟩, hjob, rfl⟩ :=
    (handleEncodingUploadJson_inline hinline).mp hview
  cases hentries.symm.trans hentries'
  cases hjob
  obtain ⟨size', encodings, hread, -, hcompleted⟩ := handleRawUpload_ok
    (w := { w with db := w.db.setDataproviderUploadState dpId .done }) htask hproject hfresh
      hcountable
  obtain rfl := readEntries_json hread
  obtain rfl : size' = size := by
    have hsome := hread.size_eq
    rw [List.head?_map, Option.map_map, Option.map_eq_some_iff] at hsome
    obtain ⟨e, he, rfl⟩ := hsome
    exact hsize e (List.mem_of_mem_head? he)
  have hlength := hread.length_le
  rw [List.length_map] at hlength
  refine ⟨hlength, w.db.nextBlockId, ?_⟩
  rw [← listedNames_eq_flatMap]
  exact hcompleted.ingested ⟨hvacant.blocks, hvacant.encodings, hvacant.encodingblocks⟩

theorem Accepted.ingested {submissions : List Submission}
    (h : Accepted settings w submissions dpId entries)
    (hsize : ∀ e ∈ entries, e.encoding.length = size) :
    entries.length ≤ 2 ^ 32 ∧ ∃ first, (ingestAll settings submissions w).db.Ingested dpId first
      (counted ((List.range entries.length).flatMap
        (entryNames settings.blake2b (entries.map InlineEntry.json))))
      (packedItems size (entries.map InlineEntry.encoding)
        (entryNames settings.blake2b (entries.map InlineEntry.json))) := by
  obtain ⟨before, s, after, clkJson, usesBlocking, rfl, rfl, hupload, hinline, hentries, hvacant,
    hproject, ⟨w', b, h⟩, hafter⟩ := h
  rw [hupload] at h
  obtain ⟨hlength, first, hingested⟩ :=
    ingested_of_ingest hvacant hproject hinline hentries hsize h
  have hrest := untouched_ingestAll settings hafter w'
  refine ⟨hlength, first, ?_⟩
  have hw : ingestAll settings (before ++ s :: after) w = ingestAll settings after w' := by
    rw [ingestAll_append]
    exact ingestAll_of_ok (hupload ▸ h)
  rw [hw]
  exact hrest.ingested hingested

end Ingested

section Documents
variable {settings : Settings} {w : World} {submissions : List Submission} {dpIds : List DpId}
  {size : ℕ} {document : DpId → List InlineEntry}
  (h : Documents settings w submissions dpIds size document)
include h

theorem Documents.ingested {dpId : DpId} (hdp : dpId ∈ dpIds) :
    (documentEncodings document dpId).length ≤ 2 ^ 32 ∧ ∃ first,
      (ingestAll settings submissions w).db.Ingested dpId first
        (counted ((List.range (documentEncodings document dpId).length).flatMap
          (entryNames settings.blake2b ((document dpId).map InlineEntry.json))))
        (packedItems size (documentEncodings document dpId)
          (entryNames settings.blake2b ((document dpId).map InlineEntry.json))) := by
  unfold documentEncodings
  rw [List.length_map]
  exact (h.accepted dpId hdp).ingested (h.sizes dpId hdp)

theorem Documents.hexdigest_inj {dp dp' : DpId} (hdp : dp ∈ dpIds) (hdp' : dp' ∈ dpIds) {i j : ℕ}
    {text text' : List Char} (htext : text ∈ textsAt (document dp) i)
    (htext' : text' ∈ textsAt (document dp') j)
    (heq : settings.blake2b.hexdigest text = settings.blake2b.hexdigest text') : text = text' :=
  h.digests dp hdp text (mem_flatMap_blockTexts htext) dp' hdp' text'
    (mem_flatMap_blockTexts htext') heq

theorem Documents.nodup_entryNames {dpId : DpId} (hdp : dpId ∈ dpIds) (i : ℕ) :
    (entryNames settings.blake2b ((document dpId).map InlineEntry.json) i).Nodup := by
  rw [entryNames_eq_map]
  refine List.Nodup.map_on ?_ ?_
  · intro text htext text' htext' heq
    exact h.hexdigest_inj hdp hdp htext htext' heq
  · unfold textsAt
    cases hget : (document dpId)[i]? with
    | none => exact List.nodup_nil
    | some e => exact h.once dpId hdp e (List.mem_of_getElem? hget)

/-- The uploaded documents are the datasets that the comparisons of a run read. -/
theorem Documents.storedDatasets : StoredDatasets (ingestAll settings submissions w).db dpIds size
    (documentEncodings document) := by
  refine storedDatasets_of_ingested h.distinct ?_ ?_ (fun dpId hdp i _ => ?_)
    fun dpId hdp => h.ingested hdp
  · intro dpId hdp e he
    obtain ⟨entry, hentry, rfl⟩ := List.mem_map.mp he
    exact h.sizes dpId hdp entry hentry
  · exact keepsKeys_ingestAll settings submissions w h.keys
  · exact h.nodup_entryNames hdp i

theorem Documents.inBlock_iff {dpId : DpId} (hdp : dpId ∈ dpIds) {name : BlockName} {i : ℕ} :
    Similarity.InBlock (ingestAll settings submissions w).db dpId name i ↔
      ∃ e text, (document dpId)[i]? = some e ∧ text ∈ e.blockTexts ∧
        settings.blake2b.hexdigest text = name := by
  obtain ⟨-, first, hingested⟩ := h.ingested hdp
  rw [inBlock_iff_of_ingested hingested, entryNames_eq_map, List.mem_map]
  unfold documentEncodings textsAt
  rw [List.length_map]
  constructor
  · rintro ⟨hi, text, htext, rfl⟩
    rw [List.getElem?_eq_getElem hi] at htext
    exact ⟨_, text, List.getElem?_eq_getElem hi, htext, rfl⟩
  · rintro ⟨e, text, hget, htext, rfl⟩
    refine ⟨(List.getElem?_eq_some_iff.mp hget).1, text, ?_, rfl⟩
    rw [hget]
    exact htext

/-- The pairs that the comparisons look for are those of the documents. -/
theorem Documents.qualifies_iff (dice : Bytes → Bytes → ℚ) (threshold : ℚ)
    (pair : RecordId × RecordId) :
    Qualifies dice (ingestAll settings submissions w).db dpIds (documentEncodings document)
      threshold pair ↔ SimilarRecords dice dpIds document threshold pair := by
  unfold Qualifies SimilarRecords
  refine and_congr_right fun _ => ?_
  constructor
  · rintro ⟨dp1, dp2, hdp1, hdp2, ⟨name, hin1, hin2⟩, hsimilar⟩
    have hmem1 := List.mem_of_getElem? hdp1
    have hmem2 := List.mem_of_getElem? hdp2
    obtain ⟨e1, text1, hget1, htext1, rfl⟩ := (h.inBlock_iff hmem1).mp hin1
    obtain ⟨e2, text2, hget2, htext2, hdigest⟩ := (h.inBlock_iff hmem2).mp hin2
    rw [encodingOf_documentEncodings hget1, encodingOf_documentEncodings hget2] at hsimilar
    have hsame : text2 = text1 := by
      apply h.digests dp2 hmem2 text2 _ dp1 hmem1 text1 _ hdigest
      · exact List.mem_flatMap.mpr ⟨e2, List.mem_of_getElem? hget2, htext2⟩
      · exact List.mem_flatMap.mpr ⟨e1, List.mem_of_getElem? hget1, htext1⟩
    exact ⟨dp1, dp2, e1, e2, hdp1, hdp2, hget1, hget2, ⟨text1, htext1, hsame ▸ htext2⟩, hsimilar⟩
  · rintro ⟨dp1, dp2, e1, e2, hdp1, hdp2, hget1, hget2, ⟨text, htext1, htext2⟩, hsimilar⟩
    rw [← encodingOf_documentEncodings hget1, ← encodingOf_documentEncodings hget2] at hsimilar
    have hin1 := (h.inBlock_iff (List.mem_of_getElem? hdp1)).mpr ⟨e1, text, hget1, htext1, rfl⟩
    have hin2 := (h.inBlock_iff (List.mem_of_getElem? hdp2)).mpr ⟨e2, text, hget2, htext2, rfl⟩
    exact ⟨dp1, dp2, hdp1, hdp2, ⟨_, hin1, hin2⟩, hsimilar⟩

/-- A block that entries list is stored with the records that list it. -/
theorem Documents.exists_block {dpId : DpId} (hdp : dpId ∈ dpIds) {text : List Char} {i : ℕ}
    (hi : i ∈ recordsListing (textsAt (document dpId)) (document dpId).length text) :
    ∃ id, (settings.blake2b.hexdigest text, id,
        ((recordsListing (textsAt (document dpId)) (document dpId).length text).length : ℤ)) ∈
          (ingestAll settings submissions w).db.getBlockMetadata dpId ∧
      blockEntityIds (ingestAll settings submissions w).db dpId id =
        recordsListing (textsAt (document dpId)) (document dpId).length text := by
  obtain ⟨-, first, hingested⟩ := h.ingested hdp
  obtain ⟨hlt, htext⟩ := mem_recordsListing.mp hi
  have hin := (h.inBlock_iff hdp).mpr ⟨_, text, List.getElem?_eq_getElem hlt, by
    rwa [textsAt_of_getElem? (List.getElem?_eq_getElem hlt)] at htext, rfl⟩
  obtain ⟨id, count, hblock, -⟩ := hin
  have hlookup := (exists_mem_getBlockMetadata_iff hingested).mp ⟨count, hblock⟩
  have hids : blockEntityIds (ingestAll settings submissions w).db dpId id =
      recordsListing (textsAt (document dpId)) (document dpId).length text := by
    rw [blockEntityIds_of_ingested hingested (fun i _ => h.nodup_entryNames hdp i) hlookup]
    unfold recordsListing documentEncodings
    rw [List.length_map]
    refine List.filter_congr fun j _ => ?_
    rw [entryNames_eq_map, decide_eq_decide, List.mem_map]
    constructor
    · rintro ⟨text', htext', heq⟩
      exact h.hexdigest_inj hdp hdp htext' htext heq ▸ htext'
    · intro hmem
      exact ⟨text, hmem, rfl⟩
  have hcount := (h.storedDatasets.blocks dpId hdp _ hblock).2.2
  refine ⟨id, ?_, hids⟩
  rw [← hids]
  exact hcount ▸ hblock

/-- Comparisons that ask for enough matches do so in terms of the documents. -/
theorem Documents.asked {dice : Bytes → Bytes → ℚ} {split : SplitToChunks} {chunkSizeAim : ℕ}
    {dp1 dp2 : DpId} (hdp1 : dp1 ∈ dpIds) (hdp2 : dp2 ∈ dpIds) {i j : ℕ}
    (hasked : EnoughAsked dice document split chunkSizeAim dp1 dp2 i j) :
    Asked dice (ingestAll settings submissions w).db (documentEncodings document) split
      chunkSizeAim dp1 dp2 i j := by
  obtain ⟨text, piece, hpiece, hi, hj, hcount⟩ := hasked
  obtain ⟨id1, hblock1, hids1⟩ := h.exists_block hdp1
    (List.mem_of_mem_drop (List.mem_of_mem_take hi))
  obtain ⟨id2, hblock2, hids2⟩ := h.exists_block hdp2
    (List.mem_of_mem_drop (List.mem_of_mem_take hj))
  have hpart1 : recordsIn (ingestAll settings submissions w).db dp1 id1 piece.1 =
      recordsOfPart document dp1 text piece.1 := by
    rw [recordsIn, hids1, recordsOfPart]
  have hpart2 : recordsIn (ingestAll settings submissions w).db dp2 id2 piece.2 =
      recordsOfPart document dp2 text piece.2 := by
    rw [recordsIn, hids2, recordsOfPart]
  refine ⟨_, id1, _, id2, _, hblock1, hblock2, piece, hpiece, ?_⟩
  rw [hpart1, hpart2]
  exact ⟨hi, hj, hcount⟩

theorem Documents.scores {σ : Type} [LinearOrder σ] {value : σ ↪o ℚ} {dice : Bytes → Bytes → ℚ}
    {threshold : σ} {split : SplitToChunks} {chunkSizeAim : ℕ} {cs : List (CandidatePair σ)}
    (hscores : Scores value dice (ingestAll settings submissions w).db dpIds
      (documentEncodings document) threshold split chunkSizeAim cs) :
    DocumentScores value dice dpIds document threshold split chunkSizeAim cs where
  sorted := hscores.sorted
  similar c hc := (h.qualifies_iff dice _ _).mp (hscores.correct c hc).qualifies
  similarity := by
    intro c hc dp1 dp2 e1 e2 hdp1 hdp2 hget1 hget2
    rw [(hscores.correct c hc).similarity dp1 dp2 hdp1 hdp2, encodingOf_documentEncodings hget1,
      encodingOf_documentEncodings hget2]
  complete := by
    intro pair hsimilar hasked
    apply hscores.complete pair ((h.qualifies_iff dice _ _).mpr hsimilar)
    intro dp1 dp2 hdp1 hdp2
    exact h.asked (List.mem_of_getElem? hdp1) (List.mem_of_getElem? hdp2)
      (hasked dp1 dp2 hdp1 hdp2)

/-- From the uploaded documents to the response: whatever other uploads there were, once the tasks
of all packages of a run have returned, the aggregation records a file whose download is a document
of the candidate pairs of the uploaded documents. -/
theorem scores_of_documents {σ : Type} [LinearOrder σ] {value : σ ↪o ℚ}
    {dice : Bytes → Bytes → ℚ} {anonlink : DiceDoubles value dice} {fmt : SizedFormat σ}
    {codes codes' : Codes} {threshold : σ} {so : SetOrder} {split : SplitToChunks}
    {chunkSizeAim : ℕ} {packages : List Package} {results : List PackageResult}
    {s s' : ResultStore}
    (hscheduled : Scheduled so split (ingestAll settings submissions w).db dpIds chunkSizeAim
      packages)
    (hrun : Completed anonlink.toSimilarityFunction fmt codes
      (ingestAll settings submissions w).db size threshold packages results s s')
    (hunused : Unused codes codes' s) {str : σ → List Char}
    (hstr : ∀ x e1 e2, value x = dice e1 e2 → Json.isNumber (str x) = true) (runId : RunId) :
    ∃ s'' name cs text,
      aggregateComparisons fmt.toCandidateFormat codes' (some (results.map some)) runId s' =
        (s'', .ok ()) ∧
      s''.similarityScores = s.similarityScores ++ [(runId, name)] ∧
      ScoreFile.getSimilarityScores fmt.toCandidateFormat str name s'' = (s'', .ok text) ∧
      Json.parse text = some (.object [(scoresKey, .array (cs.map (scoreJson str)))]) ∧
      DocumentScores value dice dpIds document threshold split chunkSizeAim cs := by
  have hstored := h.storedDatasets
  obtain ⟨cs, hrecorded, hsorted, hmem, -, -⟩ :=
    hrun.aggregated hstored hscheduled hunused runId
  have hscores := scores_of_found hstored hscheduled (hrun.compared hstored hscheduled) hsorted hmem
  obtain ⟨s'', name, text, hagg, hfiles, hdownload, hparse⟩ :=
    hrecorded.download (hscores.isNumber hstr)
  refine ⟨s'', name, cs, text, hagg, ?_, hdownload, hparse, h.scores hscores⟩
  rw [hfiles, hrun.scores hstored hscheduled]

end Documents

/-- An upload in the `clknblocks` format that can be read is stored. -/
theorem ingest_clknblocks {settings : Settings} {projectId : ProjectId} {dpId : DpId}
    {token : Token} {w : World} {entries : List (List JsonScalar)} {size : ℕ}
    {encodings : List Bytes} (hcan : CanUpload w.db dpId token)
    (hproject : w.db.checkProjectExists projectId = true) (hcountable : Countable settings entries)
    (hread : ReadEntries entries size encodings) (hne : 1 ≤ entries.length) (hsize : Int4 size) :
    ∃ w' b, ingest settings projectId dpId token (.json ⟨none, some entries, none, none⟩ true) w =
        (w', .ok b) ∧
      saveUpload dpId size (checkedUpload settings
        ((pendingUpload settings (w.db.setDataproviderUploadState dpId .done) dpId token
          entries).addItems dpId (inlineItems settings entries size encodings))
            projectId dpId size) = .ok w'.db := by
  have hentries : inlineEntries true ⟨none, some entries, none, none⟩ = .ok entries := by
    simp [inlineEntries, orRaise, ensure, hne]
  have hview : handleEncodingUploadJson settings projectId dpId ⟨none, some entries, none, none⟩
      token true w = (_, .ok .handleRawUpload) :=
    (handleEncodingUploadJson_inline rfl).mpr ⟨rfl, _, hentries, ⟨hcan.fresh, hcountable⟩, rfl, rfl⟩
  obtain ⟨check, hpost⟩ := projectClksPost_of_ok hview hproject
  obtain ⟨w', b, htask, hsaved⟩ := handleRawUpload_saves settings
    (w := { w with db := w.db.setDataproviderUploadState dpId .done })
    (canUpload_setUploadState dpId hcan .done) hproject hcountable.length hsize hread
  exact ⟨w', b, (Action.bind_of_ok hpost).trans htask, hsaved⟩

/-- The entry of the encoding `A` in the block `1`. -/
def sharedEntry : InlineEntry := ⟨"QQ==".toList, [65], [.str ['1']], rfl⟩

def uploadShared (dpId : DpId) (token : Token) : Submission :=
  ⟨"project", dpId, token, .json ⟨none, some [sharedEntry.json], none, none⟩ true⟩

def oneShared : Database where
  projects := [⟨"project", none, none, 2, .groups, false, true⟩]
  dataproviders := [⟨1, "token-1", .done, "project"⟩, ⟨2, "token-2", .inProgress, "project"⟩]
  uploads := [⟨1, "receipt-1", none, .ready, some 1, 1, 1⟩]
  blocks := [⟨1, knownDigests.hexdigest ['1'], 1, 1, .pending⟩]
  encodings := [⟨(1 <<< 32) + 0, [0, 0, 0, 0, 65], 1⟩]
  encodingblocks := [⟨1, 0, (1 <<< 32) + 0, 1⟩]
  nextBlockId := 2

def bothShared : Database where
  projects := [⟨"project", none, none, 2, .groups, false, true⟩]
  dataproviders := [⟨1, "token-1", .done, "project"⟩, ⟨2, "token-2", .done, "project"⟩]
  uploads := [⟨1, "receipt-1", none, .ready, some 1, 1, 1⟩,
    ⟨2, "receipt-2", none, .ready, some 1, 1, 1⟩]
  blocks := [⟨1, knownDigests.hexdigest ['1'], 1, 1, .pending⟩,
    ⟨2, knownDigests.hexdigest ['1'], 2, 1, .pending⟩]
  encodings := [⟨(1 <<< 32) + 0, [0, 0, 0, 0, 65], 1⟩, ⟨(2 <<< 32) + 0, [0, 0, 0, 0, 65], 2⟩]
  encodingblocks := [⟨1, 0, (1 <<< 32) + 0, 1⟩, ⟨2, 0, (2 <<< 32) + 0, 2⟩]
  nextBlockId := 3

theorem ingest_uploadShared {dpId : DpId} {token : Token} {w : World}
    (hcan : CanUpload w.db dpId token) (hproject : w.db.checkProjectExists "project" = true) :
    ∃ w' b, ingest defaultSettings "project" dpId token (uploadShared dpId token).upload w =
        (w', .ok b) ∧
      saveUpload dpId 1 (checkedUpload defaultSettings
        ((pendingUpload defaultSettings (w.db.setDataproviderUploadState dpId .done) dpId token
          [sharedEntry.json]).addItems dpId
            (inlineItems defaultSettings [sharedEntry.json] 1 [[65]])) "project" dpId 1) =
              .ok w'.db := by
  have hcountable : Countable defaultSettings [sharedEntry.json] :=
    countable_of_length (by simp [InlineEntry.json]) (by simp) (by decide)
  exact ingest_clknblocks hcan hproject hcountable ⟨rfl, rfl, by decide⟩ le_rfl (by decide)

theorem canUpload_oneShared : CanUpload oneShared 2 "receipt-2" where
  vacant := ⟨by decide, by decide, by decide⟩
  fresh := show "receipt-2" ∉ oneShared.uploads.map UploadRow.token by decide
  own := show ∀ r ∈ oneShared.encodings, r.encodingId / 2 ^ 32 = r.dp by decide
  dp_lt := by decide

theorem ingest_bothShared : ∃ w1 w2 b1 b2,
    ingest defaultSettings "project" 1 "receipt-1" (uploadShared 1 "receipt-1").upload
      ⟨newProject true, Dict.empty, Dict.empty⟩ = (w1, .ok b1) ∧ w1.db = oneShared ∧
    ingest defaultSettings "project" 2 "receipt-2" (uploadShared 2 "receipt-2").upload w1 =
      (w2, .ok b2) ∧ w2.db = bothShared := by
  have hcan1 := canUpload_newProject true (show (1 : ℕ) < 2 ^ 31 by decide) "receipt-1"
  obtain ⟨w1, b1, h1, hsaved1⟩ :=
    ingest_uploadShared (w := ⟨newProject true, Dict.empty, Dict.empty⟩) hcan1 rfl
  have hone : w1.db = oneShared := Except.ok.inj (hsaved1.symm.trans rfl)
  have hcan2 : CanUpload w1.db 2 "receipt-2" := hone ▸ canUpload_oneShared
  obtain ⟨w2, b2, h2, hsaved2⟩ := ingest_uploadShared hcan2 (hone ▸ rfl)
  rw [hone] at hsaved2
  exact ⟨w1, w2, b1, b2, h1, hone, h2, Except.ok.inj (hsaved2.symm.trans rfl)⟩

/-- Both providers of a new project upload the entry. -/
def uploadsShared : List Submission := [uploadShared 1 "receipt-1", uploadShared 2 "receipt-2"]

theorem documents_uploadsShared : Documents defaultSettings
      ⟨newProject true, Dict.empty, Dict.empty⟩ uploadsShared [1, 2] 1 (fun _ => [sharedEntry]) ∧
    (ingestAll defaultSettings uploadsShared ⟨newProject true, Dict.empty, Dict.empty⟩).db =
      bothShared := by
  obtain ⟨w1, w2, b1, b2, h1, hone, h2, hboth⟩ := ingest_bothShared
  have hfirst : ingestAll defaultSettings [uploadShared 1 "receipt-1"]
      ⟨newProject true, Dict.empty, Dict.empty⟩ = w1 :=
    ingestAll_of_ok (s := uploadShared 1 "receipt-1") h1
  have hall : ingestAll defaultSettings uploadsShared
      ⟨newProject true, Dict.empty, Dict.empty⟩ = w2 :=
    (ingestAll_of_ok (s := uploadShared 1 "receipt-1") h1).trans
      (ingestAll_of_ok (s := uploadShared 2 "receipt-2") h2)
  refine ⟨⟨by decide, by decide, ?_, by decide, by decide, by decide⟩, hall ▸ hboth⟩
  intro dpId hdp
  simp only [List.mem_cons, List.not_mem_nil, or_false] at hdp
  rcases hdp with rfl | rfl
  · exact ⟨[], _, _, _, _, rfl, rfl, rfl, rfl, rfl,
      (canUpload_newProject true (by decide) "receipt-1").vacant, rfl, ⟨w1, b1, h1⟩, by decide⟩
  · refine ⟨[uploadShared 1 "receipt-1"], _, [], _, _, rfl, rfl, rfl, rfl, rfl, ?_⟩
    rw [hfirst, hone]
    exact ⟨canUpload_oneShared.vacant, rfl, ⟨w2, b2, h2⟩, by decide⟩

def sharedChunks : ChunkPair := (⟨1, 0, (0, 1), 1⟩, ⟨2, 1, (0, 1), 2⟩)

theorem completed_sharedChunks : ∃ results s',
    Completed equalFirst sizedDoubleFormat longCodes bothShared 1 oneBits [[sharedChunks]] results
      noFiles s' := by
  have hreturned : ∃ s' result, PackageResults.computeFilterSimilarity sizedDoubleFormat longCodes
      equalFirst bothShared oneBits 1 true none 10 [sharedChunks] noFiles =
        (s', .ok (some result)) := ⟨_, _, rfl⟩
  obtain ⟨s', result, hreturned⟩ := hreturned
  exact ⟨[result], s', rfl, _, .returned hreturned .nil, .refl _⟩

/-- The two entries are a candidate pair. -/
theorem scores_of_documents_uploadsShared : ∃ (results : List PackageResult)
    (s' s'' : ResultStore) (name : FileName) (cs : List (CandidatePair DoubleBits))
    (text : List Char),
    aggregateComparisons sizedDoubleFormat.toCandidateFormat otherCodes
        (some (results.map some)) "run" s' = (s'', .ok ()) ∧
      s''.similarityScores = noFiles.similarityScores ++ [("run", name)] ∧
      ScoreFile.getSimilarityScores sizedDoubleFormat.toCandidateFormat (fun _ => ['1', '.', '0'])
        name s'' = (s'', .ok text) ∧
      Json.parse text = some (.object [(scoresKey,
        .array (cs.map (scoreJson fun _ => ['1', '.', '0'])))]) ∧
      DocumentScores doubleValue equalDice [1, 2] (fun _ => [sharedEntry]) oneBits unitSplit 100
        cs := by
  obtain ⟨hdocuments, hboth⟩ := documents_uploadsShared
  obtain ⟨results, s', hrun⟩ := completed_sharedChunks
  have hscheduled : Scheduled .same unitSplit bothShared [1, 2] 100 [[sharedChunks]] :=
    ⟨[(knownDigests.hexdigest ['1'], 1, 2)], by decide, by decide⟩
  have hrun : Completed equalDoubles.toSimilarityFunction sizedDoubleFormat longCodes bothShared 1
      oneBits [[sharedChunks]] results noFiles s' := hrun
  rw [← hboth] at hrun hscheduled
  exact ⟨results, s', scores_of_documents hdocuments hscheduled hrun unused_noFiles.1
    (fun _ _ _ _ => by decide) "run"⟩

end EntityService.Views
