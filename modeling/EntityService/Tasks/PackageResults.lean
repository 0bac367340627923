import EntityService.Tasks.Deduplication
import EntityService.Tasks.PackageShape

/-! The file of a package: its task writes the ids of the records that were found similar, sorted
over all chunk pairs. -/
namespace EntityService.Tasks.PackageResults
open Lib Aggregation Similarity

/-- The order of `anonlink.similarities`: descending similarity, then both indices. -/
def indexKey {σ : Type} (s : σ × ℕ × ℕ) : σᵒᵈ ×ₗ ℕ ×ₗ ℕ :=
  toLex (.toDual s.1, toLex (s.2.1, s.2.2))

/-- `anonlink.similarities.dice_coefficient_accelerated` for doubles: similarities with indices of
both datasets, in order. It may not be implemented for the encodings. -/
structure SimilarityFunction (σ : Type) [LinearOrder σ] where
  run : ChunkPair → List Bytes × List Bytes → σ → ℕ → Except Error (List (σ × ℕ × ℕ))
  index_lt : ∀ call datasets threshold k sims, run call datasets threshold k = .ok sims →
    ∀ s ∈ sims, s.2.1 < datasets.1.length ∧ s.2.2 < datasets.2.length
  sorted : ∀ call datasets threshold k sims, run call datasets threshold k = .ok sims →
    sims.Pairwise fun s t => indexKey s ≤ indexKey t

/-- A format whose sizes are those of the files, so that the files are stored as a whole. -/
structure SizedFormat (σ : Type) [LinearOrder σ] extends CandidateFormat σ where
  dumpSize_eq : ∀ cs, dumpSize cs = (toCandidateFormat.dump cs).length
  mergeSize_eq : ∀ files : List (List (CandidatePair σ)), (∀ cs ∈ files, Sorted cs) →
    ∀ chunks size, mergeStreamsIter (files.map toCandidateFormat.dump) (files.map dumpSize) =
      .ok (chunks, size) → size = chunks.flatten.length

/-- An item of an `array.array('I')`. -/
def unsignedInt (n : ℕ) : Except Error UInt32 :=
  if n < 2 ^ 32 then .ok (UInt32.ofNat n) else .error .overflowError

/-- The similarities of a chunk pair with the ids of the encodings. -/
structure ChunkResult (σ : Type) where
  sims : List (σ × UInt32 × UInt32)
  datasetIndex0 : ℕ
  datasetIndex1 : ℕ

section Task
variable {σ : Type} [LinearOrder σ]

/-- From an index in a chunk to an encoding id. -/
def reindexUsingEncodingIds (encodingIdList : List ℕ) (i : ℕ) : Except Error UInt32 := do
  unsignedInt (← orRaise encodingIdList[i]? Error.indexError)

def compareChunk (anonlink : SimilarityFunction σ) (threshold : σ)
    (pair : FetchedChunk × FetchedChunk) : Except Error (ChunkResult σ) := do
  let (chunkDp1, chunkDp2) := pair
  let encDp1Size := chunkDp1.encodings.length
  let encDp2Size := chunkDp2.encodings.length
  ensure (0 < encDp1Size) Error.assertionError
  ensure (0 < encDp2Size) Error.assertionError
  let results ← anonlink.run (chunkDp1.chunkInfo, chunkDp2.chunkInfo)
    (chunkDp1.encodings, chunkDp2.encodings) threshold (min encDp1Size encDp2Size)
  let sims ← results.mapM fun s => do
    let recIs0 ← reindexUsingEncodingIds chunkDp1.entityIds s.2.1
    let recIs1 ← reindexUsingEncodingIds chunkDp2.entityIds s.2.2
    return (s.1, recIs0, recIs1)
  return ⟨sims, chunkDp1.chunkInfo.datasetIndex, chunkDp2.chunkInfo.datasetIndex⟩

def ChunkResult.candidatePairs (r : ChunkResult σ) : Except Error (List (CandidatePair σ)) := do
  let index1 ← unsignedInt r.datasetIndex0
  let index2 ← unsignedInt r.datasetIndex1
  return r.sims.map fun s => ⟨s.1, index1, index2, s.2.1, s.2.2⟩

variable (fmt : SizedFormat σ) (codes : Codes)

/-- The object store reads as much of the stream as it is told to. -/
def saveComparisonResultsToObjectStore (stream : Bytes) (size : ℕ) : Aggregate FileName := do
  let resultFilename ← generateFilename codes
  putObject resultFilename (stream.take size)
  return resultFilename

/-- The end of a task. Nothing is written without results. -/
def saveResults (simResults : List (ChunkResult σ)) : Aggregate PackageResult := do
  let numResults := (simResults.map fun r => r.sims.length).sum
  let chunkResults ← Action.lift
    ((simResults.filter fun r => r.sims.length ≠ 0).mapM ChunkResult.candidatePairs)
  match chunkResults with
  | [] => return (0, none, none)
  | [candidatePairs] =>
    let fileSize := fmt.dumpSize candidatePairs
    let resultFilename ← saveComparisonResultsToObjectStore codes (fmt.dump candidatePairs) fileSize
    return (numResults, some fileSize, some resultFilename)
  | chunkResults =>
    let (merged, mergedFileSize) ← Action.lift (fmt.mergeStreamsIter
      (chunkResults.map fmt.dump) (chunkResults.map fmt.dumpSize))
    let resultFilename ← saveComparisonResultsToObjectStore codes merged.flatten mergedFileSize
    return (numResults, some mergedFileSize, some resultFilename)

/-- The task of a package. It returns nothing for a run that is not active, for encodings that
cannot be compared and when the run has too many candidate pairs. -/
def computeFilterSimilarity (anonlink : SimilarityFunction σ) (db : Database) (threshold : σ)
    (encodingSize : ℤ) (active : Bool) (globalCandidatesForRun : Option ℕ)
    (maxCandidatePairs : ℕ) (package : Package) : Aggregate (Option PackageResult) :=
  if active = false then return none
  else do
    let fetched ← Action.lift (packageWithEncodingData db encodingSize package)
    match fetched.mapM (compareChunk anonlink threshold) with
    | .error .notImplementedError => return none
    | .error e => Action.raise e
    | .ok simResults =>
      if ∃ count ∈ globalCandidatesForRun, maxCandidatePairs < count then return none
      else return some (← saveResults fmt codes simResults)

end Task

section Specification
variable (db : Database) (size : ℕ) (encodings : DpId → List Bytes)

/-- The encodings of a data provider are stored, and a block of it lists no record twice. -/
structure StoredOnce (chunk : ChunkInfo) : Prop where
  rows : StoredRows db chunk.dataproviderId size (encodings chunk.dataproviderId)
  once : (blockEntityIds db chunk.dataproviderId chunk.blockId).Nodup

/-- The records at the positions of a chunk. Those of a package with several chunk pairs are all
records of the block. -/
def recordIds (package : Package) (chunk : ChunkInfo) : List ℕ :=
  if 1 < package.length then blockEntityIds db chunk.dataproviderId chunk.blockId
  else chunkIds db chunk

def storedEncodings (package : Package) (chunk : ChunkInfo) : List Bytes :=
  (recordIds db package chunk).map fun i => (record size (encodings chunk.dataproviderId) i).2

def fetchedAt (package : Package) (chunk : ChunkInfo) : FetchedChunk :=
  ⟨chunk, recordIds db package chunk, storedEncodings db size encodings package chunk⟩

variable {σ : Type} [LinearOrder σ] (anonlink : SimilarityFunction σ) (threshold : σ)

def runOn (package : Package) (chunks : ChunkPair) : Except Error (List (σ × ℕ × ℕ)) :=
  anonlink.run chunks (storedEncodings db size encodings package chunks.1,
    storedEncodings db size encodings package chunks.2) threshold
    (min (recordIds db package chunks.1).length (recordIds db package chunks.2).length)

/-- A pair that is found, with the ids of the records at its positions. -/
def foundPair (package : Package) (chunks : ChunkPair) (s : σ × ℕ × ℕ) : CandidatePair σ :=
  ⟨s.1, .ofNat chunks.1.datasetIndex, .ofNat chunks.2.datasetIndex,
    .ofNat ((recordIds db package chunks.1).getD s.2.1 0),
    .ofNat ((recordIds db package chunks.2).getD s.2.2 0)⟩

def foundPairs (package : Package) (chunks : ChunkPair) : List (CandidatePair σ) :=
  match runOn db size encodings anonlink threshold package chunks with
  | .ok sims => sims.map (foundPair db package chunks)
  | .error _ => []

end Specification

section Fetch
variable {db : Database} {size : ℕ} {encodings : DpId → List Bytes} {package : Package}
  {chunk : ChunkInfo}

theorem StoredOnce.nodup (h : StoredOnce db size encodings chunk) :
    (chunkIds db chunk).Nodup :=
  (h.once.sublist (List.drop_sublist _ _)).sublist (List.take_sublist _ _)

/-- The ids ascend in both ways of fetching. -/
theorem StoredOnce.pairwise (h : StoredOnce db size encodings chunk) :
    (recordIds db package chunk).Pairwise (· < ·) := by
  have hblock : (blockEntityIds db chunk.dataproviderId chunk.blockId).Pairwise (· < ·) := by
    have hle := pairwise_blockEntityIds db chunk.dataproviderId chunk.blockId
    exact hle.imp₂ (fun a b hab hne => lt_of_le_of_ne hab hne) h.once
  unfold recordIds
  split_ifs with hlong
  · exact hblock
  · exact (hblock.sublist (List.drop_sublist _ _)).sublist (List.take_sublist _ _)

theorem StoredOnce.lt (h : StoredOnce db size encodings chunk) {i : ℕ}
    (hi : i ∈ recordIds db package chunk) : i < 2 ^ 32 := by
  have hmem : i ∈ blockEntityIds db chunk.dataproviderId chunk.blockId := by
    unfold recordIds at hi
    split_ifs at hi with hlong
    · exact hi
    · exact List.mem_of_mem_drop (List.mem_of_mem_take hi)
  exact (h.rows.lt_of_mem_blockEntityIds hmem).trans_le h.rows.length_le

theorem fetchedChunk_of_single (h : StoredOnce db size encodings chunk)
    (hshort : ¬ 1 < package.length) {fetched : FetchedChunk} :
    fetchSingleChunk db size chunk = .ok fetched ↔
      recordIds db package chunk ≠ [] ∧ fetched = fetchedAt db size encodings package chunk := by
  have hids : recordIds db package chunk = chunkIds db chunk := if_neg hshort
  rw [Similarity.fetchSingleChunk_eq h.rows, h.nodup.dedup, fetchedAt, storedEncodings, hids]
  split_ifs with hempty
  · simp [hempty]
  · simp only [Except.ok.injEq, hempty, ne_eq, not_false_eq_true, true_and]
    exact eq_comm

section Package
variable (h : ∀ chunks ∈ package,
  StoredOnce db size encodings chunks.1 ∧ StoredOnce db size encodings chunks.2)
include h

theorem of_packageWithEncodingData {fetched : List (FetchedChunk × FetchedChunk)}
    (hfetched : packageWithEncodingData db size package = .ok fetched) :
    fetched = package.map fun chunks => (fetchedAt db size encodings package chunks.1,
      fetchedAt db size encodings package chunks.2) := by
  by_cases hlong : 1 < package.length
  · rw [packageWithEncodingData, if_pos hlong] at hfetched
    have hside : ∀ pair ∈ fetched, ∀ fetchedChunk ∈ [pair.1, pair.2], ∀ chunk : ChunkInfo,
        StoredOnce db size encodings chunk → fetchedChunk.chunkInfo = chunk →
          fetchedChunk = fetchedAt db size encodings package chunk := by
      intro pair hpair fetchedChunk hfetchedChunk chunk hstored hinfo
      obtain ⟨hentityIds, hencodings⟩ := of_getEncodingChunks hstored.rows hfetched hpair
        hfetchedChunk (congrArg ChunkInfo.dataproviderId hinfo)
      have hids : fetchedChunk.entityIds = recordIds db package chunk := by
        rw [hentityIds, hinfo, recordIds, if_pos hlong]
      rw [fetchedAt, storedEncodings, ← hids, ← hencodings, ← hinfo]
    have hall := List.forall₂_iff_zip.mp (forall₂_getEncodingChunks hfetched)
    have heq : List.Forall₂ Eq (package.map fun chunks =>
        (fetchedAt db size encodings package chunks.1,
          fetchedAt db size encodings package chunks.2)) fetched := by
      refine List.forall₂_map_left_iff.mpr (List.forall₂_iff_zip.mpr
        ⟨hall.1, fun {chunks pair} hmem => ?_⟩)
      obtain ⟨hchunks, hpair⟩ := List.of_mem_zip hmem
      obtain ⟨hinfo1, hinfo2⟩ := hall.2 hmem
      have hleft := hside pair hpair pair.1 (by simp) chunks.1 (h chunks hchunks).1 hinfo1
      have hright := hside pair hpair pair.2 (by simp) chunks.2 (h chunks hchunks).2 hinfo2
      exact (Prod.ext hleft hright).symm
    rw [List.forall₂_eq_eq_eq] at heq
    exact heq.symm
  · rw [packageWithEncodingData, if_neg hlong] at hfetched
    obtain ⟨chunks, hchunks, hfetched⟩ := bind_eq_ok.mp hfetched
    obtain ⟨left, hleft, hfetched⟩ := bind_eq_ok.mp hfetched
    obtain ⟨right, hright, hfetched⟩ := bind_eq_ok.mp hfetched
    obtain rfl := Except.ok.inj hfetched
    have hhead := List.head?_eq_some_iff.mp (orRaise_eq_ok.mp hchunks)
    obtain ⟨rest, rfl⟩ := hhead
    obtain rfl : rest = [] := by
      rw [List.length_cons] at hlong
      exact List.length_eq_zero_iff.mp (by omega)
    obtain ⟨hstored1, hstored2⟩ := h chunks List.mem_cons_self
    obtain ⟨-, rfl⟩ := (fetchedChunk_of_single hstored1 hlong).mp hleft
    obtain ⟨-, rfl⟩ := (fetchedChunk_of_single hstored2 hlong).mp hright
    rfl

theorem packageWithEncodingData_ok (hne : package ≠ [])
    (hids : ∀ chunks ∈ package,
      recordIds db package chunks.1 ≠ [] ∧ recordIds db package chunks.2 ≠ []) :
    packageWithEncodingData db size package = .ok (package.map fun chunks =>
      (fetchedAt db size encodings package chunks.1,
        fetchedAt db size encodings package chunks.2)) := by
  obtain ⟨fetched, hfetched⟩ : ∃ fetched,
      packageWithEncodingData db size package = .ok fetched := by
    by_cases hlong : 1 < package.length
    · rw [packageWithEncodingData, if_pos hlong]
      apply getEncodingChunks_succeeds
      intro c hc
      obtain ⟨chunks, hchunks, hc⟩ := List.mem_flatMap.mp hc
      obtain ⟨hstored1, hstored2⟩ := h chunks hchunks
      have hne := hids chunks hchunks
      unfold recordIds at hne
      rw [if_pos hlong, if_pos hlong] at hne
      rcases List.mem_cons.mp hc with rfl | hc
      · exact ⟨⟨_, hstored1.rows⟩, hne.1⟩
      · rw [List.mem_singleton.mp hc]
        exact ⟨⟨_, hstored2.rows⟩, hne.2⟩
    · have hpos := List.length_pos_iff.mpr hne
      have hlength : package.length = 1 := by omega
      obtain ⟨chunks, rfl⟩ := List.length_eq_one_iff.mp hlength
      obtain ⟨hstored1, hstored2⟩ := h chunks (List.mem_singleton_self chunks)
      obtain ⟨hne1, hne2⟩ := hids chunks (List.mem_singleton_self chunks)
      have hleft := (fetchedChunk_of_single hstored1 hlong).mpr ⟨hne1, rfl⟩
      have hright := (fetchedChunk_of_single hstored2 hlong).mpr ⟨hne2, rfl⟩
      rw [packageWithEncodingData, if_neg hlong]
      exact ⟨_, bind_eq_ok.mpr ⟨chunks, rfl, bind_eq_ok.mpr ⟨_, hleft,
        bind_eq_ok.mpr ⟨_, hright, rfl⟩⟩⟩⟩
  rw [hfetched, of_packageWithEncodingData h hfetched]

end Package
end Fetch

section Compare
variable {σ : Type} [LinearOrder σ] {db : Database} {size : ℕ} {encodings : DpId → List Bytes}
  {anonlink : SimilarityFunction σ} {threshold : σ} {package : Package} {chunks : ChunkPair}

theorem unsignedInt_eq_ok {n : ℕ} {u : UInt32} :
    unsignedInt n = .ok u ↔ n < 2 ^ 32 ∧ u = .ofNat n := by
  unfold unsignedInt
  split_ifs with h
  · rw [Except.ok.injEq, eq_comm]
    exact (and_iff_right h).symm
  · constructor
    · intro he
      cases he
    · exact fun he => absurd he.1 h

theorem indexKey_le_iff {s t : σ × ℕ × ℕ} : indexKey s ≤ indexKey t ↔
    t.1 < s.1 ∨ t.1 = s.1 ∧ (s.2.1 < t.2.1 ∨ s.2.1 = t.2.1 ∧ s.2.2 ≤ t.2.2) := by
  unfold indexKey
  rw [Prod.Lex.toLex_le_toLex, Prod.Lex.toLex_le_toLex, OrderDual.toDual_lt_toDual,
    OrderDual.toDual_inj, eq_comm]

theorem reindexUsingEncodingIds_ok {chunk : ChunkInfo} (h : StoredOnce db size encodings chunk)
    {i : ℕ} (hi : i < (recordIds db package chunk).length) :
    reindexUsingEncodingIds (recordIds db package chunk) i =
      .ok (.ofNat ((recordIds db package chunk).getD i 0)) := by
  have hmem := List.getElem_mem hi
  rw [reindexUsingEncodingIds, List.getD_eq_getElem?_getD, List.getElem?_eq_getElem hi]
  exact unsignedInt_eq_ok.mpr ⟨h.lt hmem, rfl⟩

section Stored
variable (h1 : StoredOnce db size encodings chunks.1) (h2 : StoredOnce db size encodings chunks.2)
include h1 h2

theorem compareChunk_eq_ok {r : ChunkResult σ} :
    compareChunk anonlink threshold (fetchedAt db size encodings package chunks.1,
        fetchedAt db size encodings package chunks.2) = .ok r ↔
      (recordIds db package chunks.1 ≠ [] ∧ recordIds db package chunks.2 ≠ []) ∧
        ∃ sims, runOn db size encodings anonlink threshold package chunks = .ok sims ∧
          r = ⟨sims.map fun s => (s.1, .ofNat ((recordIds db package chunks.1).getD s.2.1 0),
            .ofNat ((recordIds db package chunks.2).getD s.2.2 0)),
            chunks.1.datasetIndex, chunks.2.datasetIndex⟩ := by
  have hlength : ∀ chunk, (storedEncodings db size encodings package chunk).length =
      (recordIds db package chunk).length := fun chunk => List.length_map _
  have hids : ∀ {sims : List (σ × ℕ × ℕ)},
      runOn db size encodings anonlink threshold package chunks = .ok sims →
      (sims.mapM fun s => do
        let recIs0 ← reindexUsingEncodingIds (recordIds db package chunks.1) s.2.1
        let recIs1 ← reindexUsingEncodingIds (recordIds db package chunks.2) s.2.2
        return (s.1, recIs0, recIs1)) =
      .ok (sims.map fun s => (s.1, .ofNat ((recordIds db package chunks.1).getD s.2.1 0),
        .ofNat ((recordIds db package chunks.2).getD s.2.2 0))) := by
    intro sims hsims
    refine mapM_eq_pure_map fun s hs => ?_
    obtain ⟨hi, hj⟩ := anonlink.index_lt _ _ _ _ _ hsims s hs
    rw [hlength] at hi hj
    rw [reindexUsingEncodingIds_ok h1 hi, ok_bind, reindexUsingEncodingIds_ok h2 hj, ok_bind]
  have hrun : anonlink.run chunks (storedEncodings db size encodings package chunks.1,
      storedEncodings db size encodings package chunks.2) threshold
      (min (storedEncodings db size encodings package chunks.1).length
        (storedEncodings db size encodings package chunks.2).length) =
      runOn db size encodings anonlink threshold package chunks := by
    rw [hlength, hlength]
    rfl
  simp only [compareChunk, fetchedAt, bind_eq_ok, ensure_eq_ok, exists_const, hlength,
    List.length_pos_iff]
  constructor
  · rintro ⟨hne1, hne2, sims, hsims, ids, hmap, hr⟩
    rw [← hlength chunks.1, ← hlength chunks.2] at hsims
    rw [hrun] at hsims
    rw [hids hsims] at hmap
    obtain rfl := Except.ok.inj hmap
    exact ⟨⟨hne1, hne2⟩, sims, hsims, (Except.ok.inj hr).symm⟩
  · rintro ⟨⟨hne1, hne2⟩, sims, hsims, rfl⟩
    exact ⟨hne1, hne2, sims, hsims, _, hids hsims, rfl⟩

theorem of_compareChunk {r : ChunkResult σ}
    (h : compareChunk anonlink threshold (fetchedAt db size encodings package chunks.1,
      fetchedAt db size encodings package chunks.2) = .ok r) :
    r.sims.length = (foundPairs db size encodings anonlink threshold package chunks).length ∧
      ∀ pairs, r.candidatePairs = .ok pairs →
        pairs = foundPairs db size encodings anonlink threshold package chunks := by
  obtain ⟨-, sims, hsims, rfl⟩ := (compareChunk_eq_ok h1 h2).mp h
  have hfound : foundPairs db size encodings anonlink threshold package chunks =
      sims.map (foundPair db package chunks) := by
    rw [foundPairs, hsims]
  refine ⟨?_, fun pairs hpairs => ?_⟩
  · rw [hfound, List.length_map, List.length_map]
  · obtain ⟨index1, hindex1, hpairs⟩ := bind_eq_ok.mp hpairs
    obtain ⟨index2, hindex2, hpairs⟩ := bind_eq_ok.mp hpairs
    obtain ⟨-, rfl⟩ := unsignedInt_eq_ok.mp hindex1
    obtain ⟨-, rfl⟩ := unsignedInt_eq_ok.mp hindex2
    rw [hfound, ← Except.ok.inj hpairs, List.map_map]
    rfl

/-- Ascending ids keep the order of the indices. -/
theorem before_foundPair {s t : σ × ℕ × ℕ}
    (hs : s.2.1 < (recordIds db package chunks.1).length ∧
      s.2.2 < (recordIds db package chunks.2).length)
    (ht : t.2.1 < (recordIds db package chunks.1).length ∧
      t.2.2 < (recordIds db package chunks.2).length)
    (hle : indexKey s ≤ indexKey t) :
    (foundPair db package chunks s).Before (foundPair db package chunks t) := by
  have hid : ∀ {chunk : ChunkInfo}, StoredOnce db size encodings chunk → ∀ {i : ℕ},
      i < (recordIds db package chunk).length →
      (UInt32.ofNat ((recordIds db package chunk).getD i 0)).toNat =
        (recordIds db package chunk).getD i 0 := by
    intro chunk hstored i hi
    rw [List.getD_eq_getElem?_getD, List.getElem?_eq_getElem hi, Option.getD_some]
    exact UInt32.toNat_ofNat_of_lt' (hstored.lt (List.getElem_mem hi))
  have hlt : ∀ {chunk : ChunkInfo}, StoredOnce db size encodings chunk → ∀ {i j : ℕ}, i < j →
      j < (recordIds db package chunk).length →
      (recordIds db package chunk).getD i 0 < (recordIds db package chunk).getD j 0 := by
    intro chunk hstored i j hij hj
    have hi := hij.trans hj
    rw [List.getD_eq_getElem?_getD, List.getD_eq_getElem?_getD, List.getElem?_eq_getElem hi,
      List.getElem?_eq_getElem hj]
    exact List.pairwise_iff_getElem.mp hstored.pairwise i j hi hj hij
  unfold CandidatePair.Before CandidatePair.key foundPair
  dsimp only
  rw [hid h1 hs.1, hid h2 hs.2, hid h1 ht.1, hid h2 ht.2]
  simp only [Prod.Lex.toLex_le_toLex, OrderDual.toDual_lt_toDual, OrderDual.toDual_inj,
    lt_irrefl, true_and, false_or]
  rcases indexKey_le_iff.mp hle with hsim | ⟨hsim, hi | ⟨hi, hj⟩⟩
  · exact .inl hsim
  · exact .inr ⟨hsim.symm, .inl (hlt h1 hi ht.1)⟩
  · refine .inr ⟨hsim.symm, .inr ⟨by rw [hi], ?_⟩⟩
    rcases hj.lt_or_eq with hj | hj
    · exact (hlt h2 hj ht.2).le
    · rw [hj]

theorem sorted_foundPairs :
    Sorted (foundPairs db size encodings anonlink threshold package chunks) := by
  unfold foundPairs
  split
  case h_1 sims hsims =>
    have hlength : ∀ chunk, (storedEncodings db size encodings package chunk).length =
        (recordIds db package chunk).length := fun chunk => List.length_map _
    have hindex : ∀ s ∈ sims, s.2.1 < (recordIds db package chunks.1).length ∧
        s.2.2 < (recordIds db package chunks.2).length := by
      intro s hs
      have hlt := anonlink.index_lt _ _ _ _ _ hsims s hs
      rw [hlength, hlength] at hlt
      exact hlt
    have hsorted := anonlink.sorted _ _ _ _ _ hsims
    exact List.pairwise_map.mpr (hsorted.imp_of_mem fun hs ht hle =>
      before_foundPair h1 h2 (hindex _ hs) (hindex _ ht) hle)
  case h_2 => exact List.Pairwise.nil

end Stored
end Compare

/-- The result of a task: the count and the file, if there is one, of the pairs that are found. -/
structure ExactFile {σ : Type} [LinearOrder σ] (fmt : SizedFormat σ) (s s' : ResultStore)
    (found : List (CandidatePair σ)) (result : PackageResult) : Prop where
  count : result.1 = found.length
  file : ∀ name, result.2.2 = some name → ∃ entries, Sorted entries ∧ entries.Perm found ∧
    Stored fmt.toCandidateFormat s' name entries ∧
      result.2.1 = some (fmt.dump entries).length
  noSize : result.1 = 0 ↔ result.2.1 = none
  noName : result.1 = 0 ↔ result.2.2 = none
  unwritten : result.2.2 = none → s' = s

section Save
variable {σ : Type} [LinearOrder σ] {fmt : SizedFormat σ} {codes : Codes}
  {simResults : List (ChunkResult σ)} {found : List (List (CandidatePair σ))}
  {s s' : ResultStore}

theorem saveComparisonResultsToObjectStore_apply (codes : Codes) (stream : Bytes)
    (s : ResultStore) :
    saveComparisonResultsToObjectStore codes stream stream.length s =
      (⟨s.objects.set (codes.filename s.codes) stream, s.similarityScores, s.codes + 1⟩,
        .ok (codes.filename s.codes)) := by
  have hrun : saveComparisonResultsToObjectStore codes stream stream.length s =
      (⟨s.objects.set (codes.filename s.codes) (stream.take stream.length), s.similarityScores,
        s.codes + 1⟩, .ok (codes.filename s.codes)) := rfl
  rw [hrun, List.take_length]

theorem exactFile_of_written {entries pairs : List (CandidatePair σ)} (hsorted : Sorted entries)
    (hperm : entries.Perm pairs) (hne : pairs ≠ []) :
    ExactFile fmt s ⟨s.objects.set (codes.filename s.codes) (fmt.dump entries),
        s.similarityScores, s.codes + 1⟩ pairs
      (pairs.length, some (fmt.dump entries).length, some (codes.filename s.codes)) := by
  have hcount : pairs.length ≠ 0 := fun hzero => hne (List.length_eq_zero_iff.mp hzero)
  refine ⟨rfl, fun name hname => ?_, ?_, ?_, fun hnone => absurd hnone (by simp)⟩
  · obtain rfl := Option.some.inj hname
    exact ⟨entries, hsorted, hperm, Dict.get?_set_self _ _ _, rfl⟩
  · simp [hcount]
  · simp [hcount]

section Found
variable (hfound : List.Forall₂ (fun r pairs => r.sims.length = pairs.length ∧
    ∀ p, r.candidatePairs = .ok p → p = pairs) simResults found)
include hfound

omit [LinearOrder σ] in
theorem sum_sims : (simResults.map fun r => r.sims.length).sum = found.flatten.length := by
  rw [List.length_flatten]
  induction hfound with
  | nil => rfl
  | cons hr _ ih => rw [List.map_cons, List.map_cons, List.sum_cons, List.sum_cons, ih, hr.1]

omit [LinearOrder σ] in
theorem chunkResults_eq {chunkResults : List (List (CandidatePair σ))}
    (h : (simResults.filter fun r => r.sims.length ≠ 0).mapM ChunkResult.candidatePairs =
      .ok chunkResults) : chunkResults = withPairs found := by
  induction hfound generalizing chunkResults with
  | nil => exact (Except.ok.inj h).symm
  | @cons r pairs simResults found hr _ ih =>
    by_cases hempty : r.sims.length = 0
    · have hnil : pairs = [] := List.length_eq_zero_iff.mp (hr.1 ▸ hempty)
      rw [List.filter_cons_of_neg (by simpa using hempty)] at h
      rw [ih h, hnil]
      rfl
    · have hne : pairs ≠ [] := fun hnil => hempty (by rw [hr.1, hnil]; rfl)
      rw [List.filter_cons_of_pos (by simpa using hempty), List.mapM_cons] at h
      obtain ⟨p, hp, h⟩ := bind_eq_ok.mp h
      obtain ⟨ps, hps, h⟩ := bind_eq_ok.mp h
      obtain rfl := Except.ok.inj h
      rw [hr.2 p hp, ih hps, withPairs, withPairs, List.filter_cons_of_pos (by simpa using hne)]

/-- The file that is written has the pairs of all chunk pairs in order. -/
theorem saveResults_ok (hsorted : ∀ pairs ∈ found, Sorted pairs) {result : PackageResult}
    (h : saveResults fmt codes simResults s = (s', .ok result)) :
    ExactFile fmt s s' found.flatten result := by
  obtain ⟨_, chunkResults, hlift, h⟩ := Action.bind_eq_ok.mp h
  obtain ⟨rfl, hchunkResults⟩ := Prod.mk.inj hlift
  obtain rfl := chunkResults_eq hfound hchunkResults
  have hflatten : (withPairs found).flatten = found.flatten := List.flatten_filter_not_isEmpty
  have hsortedPairs : ∀ pairs ∈ withPairs found, Sorted pairs := fun pairs hpairs =>
    hsorted pairs (mem_withPairs.mp hpairs).1
  have hnonempty : ∀ pairs ∈ withPairs found, pairs ≠ [] := fun pairs hpairs =>
    (mem_withPairs.mp hpairs).2
  rw [sum_sims hfound, ← hflatten] at h
  rw [← hflatten]
  clear hchunkResults hlift hflatten
  generalize withPairs found = chunkResults at h hsortedPairs hnonempty ⊢
  rcases chunkResults with _ | ⟨pairs, _ | ⟨pairs', rest⟩⟩
  · obtain ⟨rfl, hresult⟩ := Prod.mk.inj h
    obtain rfl := Except.ok.inj hresult
    refine ⟨rfl, fun name hname => ?_, by simp, by simp, fun _ => rfl⟩
    cases hname
  · have hwrite := saveComparisonResultsToObjectStore_apply codes (fmt.dump pairs) s
    rw [← fmt.dumpSize_eq] at hwrite
    dsimp only at h
    rw [Action.bind_of_ok hwrite] at h
    obtain ⟨rfl, hresult⟩ := Prod.mk.inj h
    obtain rfl := Except.ok.inj hresult
    have hne := hnonempty pairs (List.mem_singleton_self pairs)
    rw [fmt.dumpSize_eq, List.flatten_singleton]
    exact exactFile_of_written (hsortedPairs pairs (List.mem_singleton_self pairs))
      (List.Perm.refl pairs) hne
  · obtain ⟨cs, size, hcs, hperm, hmerge⟩ := fmt.mergeStreamsIter_dump (pairs :: pairs' :: rest)
      ((pairs :: pairs' :: rest).map fmt.dumpSize) hsortedPairs
    have hsize := fmt.mergeSize_eq _ hsortedPairs _ _ hmerge
    have hfile : (fmt.header :: cs.map fmt.entry).flatten = fmt.dump cs := rfl
    have hwrite := saveComparisonResultsToObjectStore_apply codes (fmt.dump cs) s
    have hlift : (Action.lift (fmt.mergeStreamsIter ((pairs :: pairs' :: rest).map fmt.dump)
        ((pairs :: pairs' :: rest).map fmt.dumpSize)) : Aggregate _) s =
        (s, .ok (fmt.header :: cs.map fmt.entry, size)) := congrArg (Prod.mk s) hmerge
    dsimp only at h
    rw [Action.bind_of_ok hlift] at h
    dsimp only at h
    rw [hsize, hfile, Action.bind_of_ok hwrite] at h
    obtain ⟨rfl, hresult⟩ := Prod.mk.inj h
    obtain rfl := Except.ok.inj hresult
    have hne : (pairs :: pairs' :: rest).flatten ≠ [] := by
      intro hnil
      exact hnonempty pairs List.mem_cons_self (List.flatten_eq_nil_iff.mp hnil pairs
        List.mem_cons_self)
    exact exactFile_of_written hcs hperm hne

theorem saveResults_succeeds (fmt : SizedFormat σ) (codes : Codes)
    (hsorted : ∀ pairs ∈ found, Sorted pairs)
    (hindex : ∀ r ∈ simResults, r.datasetIndex0 < 2 ^ 32 ∧ r.datasetIndex1 < 2 ^ 32)
    (s : ResultStore) : ∃ s' result, saveResults fmt codes simResults s = (s', .ok result) := by
  obtain ⟨chunkResults, hchunkResults⟩ : ∃ chunkResults,
      (simResults.filter fun r => r.sims.length ≠ 0).mapM ChunkResult.candidatePairs =
        .ok chunkResults := by
    refine mapM_succeeds fun r hr => ?_
    obtain ⟨hindex0, hindex1⟩ := hindex r (List.mem_filter.mp hr).1
    exact ⟨_, bind_eq_ok.mpr ⟨_, unsignedInt_eq_ok.mpr ⟨hindex0, rfl⟩,
      bind_eq_ok.mpr ⟨_, unsignedInt_eq_ok.mpr ⟨hindex1, rfl⟩, rfl⟩⟩⟩
  have hsortedPairs : ∀ pairs ∈ chunkResults, Sorted pairs := by
    intro pairs hpairs
    rw [chunkResults_eq hfound hchunkResults] at hpairs
    exact hsorted pairs (mem_withPairs.mp hpairs).1
  unfold saveResults
  rw [hchunkResults]
  rcases chunkResults with _ | ⟨pairs, _ | ⟨pairs', rest⟩⟩
  · exact ⟨s, _, rfl⟩
  · exact ⟨_, _, rfl⟩
  · obtain ⟨cs, size, -, -, hmerge⟩ := fmt.mergeStreamsIter_dump (pairs :: pairs' :: rest)
      ((pairs :: pairs' :: rest).map fmt.dumpSize) hsortedPairs
    have hlift : (Action.lift (fmt.mergeStreamsIter ((pairs :: pairs' :: rest).map fmt.dump)
        ((pairs :: pairs' :: rest).map fmt.dumpSize)) : Aggregate _) s =
        (s, .ok (fmt.header :: cs.map fmt.entry, size)) := congrArg (Prod.mk s) hmerge
    rw [Action.lift_ok_bind]
    dsimp only
    rw [Action.bind_of_ok hlift]
    exact ⟨_, _, rfl⟩

end Found
end Save

section Returned
variable {σ : Type} [LinearOrder σ] {anonlink : SimilarityFunction σ} {fmt : SizedFormat σ}
  {codes : Codes} {db : Database} {size : ℕ} {encodings : DpId → List Bytes} {threshold : σ}
  {package : Package} {s s' : ResultStore}

/-- A task that returns a result has compared its chunks and saved what it found. -/
theorem computeFilterSimilarity_eq_some {active : Bool} {globalCandidatesForRun : Option ℕ}
    {maxCandidatePairs : ℕ} {result : PackageResult}
    (h : computeFilterSimilarity fmt codes anonlink db threshold size active
      globalCandidatesForRun maxCandidatePairs package s = (s', .ok (some result))) :
    ∃ fetched simResults, packageWithEncodingData db size package = .ok fetched ∧
      fetched.mapM (compareChunk anonlink threshold) = .ok simResults ∧
      saveResults fmt codes simResults s = (s', .ok result) := by
  unfold computeFilterSimilarity at h
  by_cases hactive : active = false
  · rw [if_pos hactive] at h
    cases h
  rw [if_neg hactive] at h
  obtain ⟨_, fetched, hlift, h⟩ := Action.bind_eq_ok.mp h
  obtain ⟨rfl, hfetched⟩ := Prod.mk.inj hlift
  cases hsimResults : fetched.mapM (compareChunk anonlink threshold) with
  | error e =>
    rw [hsimResults] at h
    cases e <;> cases h
  | ok simResults =>
    rw [hsimResults] at h
    dsimp only at h
    by_cases hlimit : ∃ count ∈ globalCandidatesForRun, maxCandidatePairs < count
    · rw [if_pos hlimit] at h
      cases h
    rw [if_neg hlimit] at h
    obtain ⟨s'', saved, hsave, h⟩ := Action.bind_eq_ok.mp h
    obtain ⟨rfl, hresult⟩ := Prod.mk.inj h
    obtain rfl := Option.some.inj (Except.ok.inj hresult)
    exact ⟨fetched, simResults, hfetched, hsimResults, hsave⟩

/-- The chunks of stored datasets are compared with what is stored of them. -/
theorem of_computeFilterSimilarity {active : Bool} {globalCandidatesForRun : Option ℕ}
    {maxCandidatePairs : ℕ} {result : PackageResult}
    (hstored : ∀ chunks ∈ package,
      StoredOnce db size encodings chunks.1 ∧ StoredOnce db size encodings chunks.2)
    (h : computeFilterSimilarity fmt codes anonlink db threshold size active
      globalCandidatesForRun maxCandidatePairs package s = (s', .ok (some result))) :
    ∃ simResults, (package.map fun chunks => (fetchedAt db size encodings package chunks.1,
        fetchedAt db size encodings package chunks.2)).mapM (compareChunk anonlink threshold) =
          .ok simResults ∧
      saveResults fmt codes simResults s = (s', .ok result) := by
  obtain ⟨fetched, simResults, hfetched, hsimResults, hsave⟩ := computeFilterSimilarity_eq_some h
  obtain rfl := of_packageWithEncodingData hstored hfetched
  exact ⟨simResults, hsimResults, hsave⟩

end Returned

section Main
variable {σ : Type} [LinearOrder σ] (anonlink : SimilarityFunction σ) (fmt : SizedFormat σ)
  (codes : Codes) {db : Database} {size : ℕ} {encodings : DpId → List Bytes} (threshold : σ)
  {package : Package}

/-- A chunk pair that anonlink can compare. -/
structure Comparable (db : Database) (size : ℕ) (encodings : DpId → List Bytes)
    (package : Package) (chunks : ChunkPair) : Prop where
  records : recordIds db package chunks.1 ≠ [] ∧ recordIds db package chunks.2 ≠ []
  index : chunks.1.datasetIndex < 2 ^ 32 ∧ chunks.2.datasetIndex < 2 ^ 32
  implemented : ∃ sims, runOn db size encodings anonlink threshold package chunks = .ok sims

variable (hstored : ∀ chunks ∈ package,
  StoredOnce db size encodings chunks.1 ∧ StoredOnce db size encodings chunks.2)
include hstored

theorem forall₂_compareChunk {simResults : List (ChunkResult σ)}
    (h : (package.map fun chunks => (fetchedAt db size encodings package chunks.1,
      fetchedAt db size encodings package chunks.2)).mapM (compareChunk anonlink threshold) =
        .ok simResults) :
    List.Forall₂ (fun r pairs => r.sims.length = pairs.length ∧
      ∀ p, r.candidatePairs = .ok p → p = pairs) simResults
      (package.map (foundPairs db size encodings anonlink threshold package)) := by
  rw [List.mapM_map] at h
  have hall := List.forall₂_iff_zip.mp (mapM_eq_ok.mp h)
  have hresults : List.Forall₂ (fun chunks r =>
      r.sims.length = (foundPairs db size encodings anonlink threshold package chunks).length ∧
        ∀ p, r.candidatePairs = .ok p →
          p = foundPairs db size encodings anonlink threshold package chunks)
        package simResults := by
    refine List.forall₂_iff_zip.mpr ⟨hall.1, fun {chunks r} hmem => ?_⟩
    obtain ⟨hstored1, hstored2⟩ := hstored chunks (List.of_mem_zip hmem).1
    exact of_compareChunk hstored1 hstored2 (hall.2 hmem)
  exact List.forall₂_map_right_iff.mpr hresults.flip

theorem sorted_found :
    ∀ pairs ∈ package.map (foundPairs db size encodings anonlink threshold package),
    Sorted pairs := by
  intro pairs hpairs
  obtain ⟨chunks, hchunks, rfl⟩ := List.mem_map.mp hpairs
  obtain ⟨hstored1, hstored2⟩ := hstored chunks hchunks
  exact sorted_foundPairs hstored1 hstored2

/-- A task writes what its comparisons find, with the ids of the records and in order. It does so
when they can be made, the run is active and the limit is not reached. -/
theorem computeFilterSimilarity_exact (active : Bool) (globalCandidatesForRun : Option ℕ)
    (maxCandidatePairs : ℕ) (s : ResultStore) :
    (∀ s' result, computeFilterSimilarity fmt codes anonlink db threshold size active
        globalCandidatesForRun maxCandidatePairs package s = (s', .ok (some result)) →
      ExactFile fmt s s'
        (package.flatMap (foundPairs db size encodings anonlink threshold package)) result) ∧
    (active = true → (∀ count ∈ globalCandidatesForRun, count ≤ maxCandidatePairs) →
      package ≠ [] →
      (∀ chunks ∈ package, Comparable anonlink threshold db size encodings package chunks) →
      ∃ s' result, computeFilterSimilarity fmt codes anonlink db threshold size active
        globalCandidatesForRun maxCandidatePairs package s = (s', .ok (some result))) := by
  constructor
  · intro s' result h
    obtain ⟨simResults, hsimResults, hsave⟩ := of_computeFilterSimilarity hstored h
    rw [List.flatMap_def]
    exact saveResults_ok (forall₂_compareChunk anonlink threshold hstored hsimResults)
      (sorted_found anonlink threshold hstored) hsave
  · intro hactive hlimit hne hcomparable
    have hfetched := packageWithEncodingData_ok hstored hne
      fun chunks hchunks => (hcomparable chunks hchunks).records
    have hcompare : ∀ chunks ∈ package, ∃ r, compareChunk anonlink threshold
        (fetchedAt db size encodings package chunks.1,
          fetchedAt db size encodings package chunks.2) = .ok r ∧
        r.datasetIndex0 < 2 ^ 32 ∧ r.datasetIndex1 < 2 ^ 32 := by
      intro chunks hchunks
      obtain ⟨hrecords, hindex, sims, hsims⟩ := hcomparable chunks hchunks
      obtain ⟨hstored1, hstored2⟩ := hstored chunks hchunks
      exact ⟨_, (compareChunk_eq_ok hstored1 hstored2).mpr ⟨hrecords, sims, hsims, rfl⟩, hindex⟩
    obtain ⟨simResults, hsimResults⟩ : ∃ simResults, (package.map fun chunks =>
        (fetchedAt db size encodings package chunks.1,
          fetchedAt db size encodings package chunks.2)).mapM (compareChunk anonlink threshold) =
        .ok simResults := by
      refine mapM_succeeds fun pair hpair => ?_
      obtain ⟨chunks, hchunks, rfl⟩ := List.mem_map.mp hpair
      obtain ⟨r, hr, -⟩ := hcompare chunks hchunks
      exact ⟨r, hr⟩
    have hindex : ∀ r ∈ simResults, r.datasetIndex0 < 2 ^ 32 ∧ r.datasetIndex1 < 2 ^ 32 := by
      intro r hr
      obtain ⟨pair, hpair, hok⟩ := (mapM_mem hsimResults).1 r hr
      obtain ⟨chunks, hchunks, rfl⟩ := List.mem_map.mp hpair
      obtain ⟨r', hr', hindex⟩ := hcompare chunks hchunks
      rw [Except.ok.inj (hok.symm.trans hr')]
      exact hindex
    obtain ⟨s', result, hsave⟩ := saveResults_succeeds
      (forall₂_compareChunk anonlink threshold hstored hsimResults) fmt codes
      (sorted_found anonlink threshold hstored) hindex s
    have hlimit : ¬ ∃ count ∈ globalCandidatesForRun, maxCandidatePairs < count := by
      rintro ⟨count, hcount, hlt⟩
      exact absurd (hlimit count hcount) (not_le.mpr hlt)
    refine ⟨s', result, ?_⟩
    unfold computeFilterSimilarity
    rw [if_neg (by simp [hactive]), hfetched, Action.lift_ok_bind, hsimResults]
    dsimp only
    rw [if_neg hlimit, Action.bind_of_ok hsave]
    rfl

end Main

/-- What a task returns is what the aggregation expects of it. -/
theorem ExactFile.returned {σ : Type} [LinearOrder σ] {fmt : SizedFormat σ} {s s' : ResultStore}
    {found : List (CandidatePair σ)} {result : PackageResult}
    (h : ExactFile fmt s s' found result) :
    ∃ entries, Returned fmt.toCandidateFormat s' (some result) entries ∧ Sorted entries ∧
      entries.Perm found := by
  obtain ⟨count, filesize, filename⟩ := result
  have hcount : count = found.length := h.count
  cases filename with
  | none =>
    obtain rfl : count = 0 := h.noName.mpr rfl
    obtain rfl : filesize = none := h.noSize.mp rfl
    have hnil : found = [] := List.length_eq_zero_iff.mp hcount.symm
    exact ⟨[], .none, List.Pairwise.nil, hnil ▸ List.Perm.nil⟩
  | some name =>
    obtain ⟨entries, hsorted, hperm, hstored, hsize⟩ := h.file name rfl
    have hne : entries ≠ [] := by
      intro hnil
      have hzero : count = 0 := by rw [hcount, ← hperm.length_eq, hnil, List.length_nil]
      have hnone : some name = none := h.noName.mp hzero
      cases hnone
    have hsize : filesize = some (fmt.dump entries).length := hsize
    rw [hcount, ← hperm.length_eq, hsize]
    exact ⟨entries, .file hne hstored, hsorted, hperm⟩

section OfDice
variable {dice : Bytes → Bytes → ℚ} (anonlink : DiceCoefficientAccelerated dice)
  (hsorted : ∀ call datasets threshold k, (anonlink.run call datasets threshold k).Pairwise
    fun s t => indexKey s ≤ indexKey t)

/-- Exact similarities in order, implemented for all encodings. -/
def ofDice : SimilarityFunction ℚ where
  run call datasets threshold k := .ok (anonlink.run call datasets threshold k)
  index_lt call datasets threshold k sims h s hs := by
    obtain rfl := Except.ok.inj h
    exact anonlink.index_lt hs
  sorted call datasets threshold k sims h := by
    obtain rfl := Except.ok.inj h
    exact hsorted call datasets threshold k

/-- The arrays of a result hold the ids that are computed. -/
theorem compareChunks_of_compareChunk {threshold : ℚ} {pair : FetchedChunk × FetchedChunk}
    {r : ChunkResult ℚ} (h : compareChunk (ofDice anonlink hsorted) threshold pair = .ok r) :
    compareChunks anonlink threshold pair =
      .ok ⟨r.sims.map fun s => (s.1, s.2.1.toNat, s.2.2.toNat), r.datasetIndex0,
        r.datasetIndex1⟩ := by
  obtain ⟨chunkDp1, chunkDp2⟩ := pair
  have hreindex : ∀ {ids : List ℕ} {i : ℕ} {u : UInt32}, reindexUsingEncodingIds ids i = .ok u →
      orRaise ids[i]? Error.indexError = .ok u.toNat := by
    intro ids i u hu
    obtain ⟨n, hn, hu⟩ := bind_eq_ok.mp hu
    obtain ⟨hlt, rfl⟩ := unsignedInt_eq_ok.mp hu
    rw [hn, UInt32.toNat_ofNat_of_lt' hlt]
  simp only [compareChunk, bind_eq_ok, ensure_eq_ok, exists_const] at h
  obtain ⟨hpos1, hpos2, results, hresults, sims, hsims, hr⟩ := h
  obtain rfl := Except.ok.inj hr
  obtain rfl := Except.ok.inj hresults
  have hall : List.Forall₂ (fun s x => (do
      let recIs0 ← orRaise chunkDp1.entityIds[s.2.1]? Error.indexError
      let recIs1 ← orRaise chunkDp2.entityIds[s.2.2]? Error.indexError
      return (s.1, recIs0, recIs1)) = .ok x)
      (anonlink.run (chunkDp1.chunkInfo, chunkDp2.chunkInfo)
        (chunkDp1.encodings, chunkDp2.encodings) threshold
        (min chunkDp1.encodings.length chunkDp2.encodings.length))
      (sims.map fun s => (s.1, s.2.1.toNat, s.2.2.toNat)) := by
    refine List.forall₂_map_right_iff.mpr ((mapM_eq_ok.mp hsims).imp ?_)
    intro s x hx
    obtain ⟨u, hu, hx⟩ := bind_eq_ok.mp hx
    obtain ⟨v, hv, hx⟩ := bind_eq_ok.mp hx
    obtain rfl := Except.ok.inj hx
    rw [hreindex hu, ok_bind, hreindex hv, ok_bind]
    rfl
  simp only [compareChunks, bind_eq_ok, ensure_eq_ok, exists_const]
  exact ⟨hpos1, hpos2, _, mapM_eq_ok.mpr hall, rfl⟩

end OfDice

theorem oneBits_lt : 0x3FF0000000000000 < 2 ^ 64 := by decide

def oneBits : DoubleBits := ⟨0x3FF0000000000000, oneBits_lt⟩

/-- Equal encodings have similarity one, and for a record the first of them are returned. -/
def equalFirst : SimilarityFunction DoubleBits where
  run _ datasets threshold k := .ok (if threshold ≤ oneBits then
    (List.range datasets.1.length).flatMap fun i =>
      (((List.range datasets.2.length).filter fun j => datasets.1[i]? = datasets.2[j]?).take k).map
        fun j => (oneBits, i, j)
    else [])
  index_lt _ datasets threshold k sims h s hs := by
    obtain rfl := Except.ok.inj h
    split_ifs at hs with hle
    · obtain ⟨i, hi, hs⟩ := List.mem_flatMap.mp hs
      obtain ⟨j, hj, rfl⟩ := List.mem_map.mp hs
      have hj := (List.mem_filter.mp (List.mem_of_mem_take hj)).1
      exact ⟨List.mem_range.mp hi, List.mem_range.mp hj⟩
    · cases hs
  sorted _ datasets threshold k sims h := by
    obtain rfl := Except.ok.inj h
    split_ifs with hle
    · refine List.pairwise_flatMap.mpr ⟨fun i hi => ?_, ?_⟩
      · have hrange : (((List.range datasets.2.length).filter
            fun j => datasets.1[i]? = datasets.2[j]?).take k).Pairwise (· < ·) :=
          (List.pairwise_lt_range.sublist List.filter_sublist).sublist (List.take_sublist _ _)
        refine List.pairwise_map.mpr (hrange.imp fun hlt => ?_)
        rw [indexKey_le_iff]
        exact .inr ⟨rfl, .inr ⟨rfl, hlt.le⟩⟩
      · refine List.pairwise_lt_range.imp fun hlt x hx y hy => ?_
        obtain ⟨j, -, rfl⟩ := List.mem_map.mp hx
        obtain ⟨j', -, rfl⟩ := List.mem_map.mp hy
        exact indexKey_le_iff.mpr (.inr ⟨rfl, .inl hlt⟩)
    · exact List.Pairwise.nil

theorem length_dump_doubleFormat (cs : List (CandidatePair DoubleBits)) :
    (doubleFormat.dump cs).length = 4 + cs.length * 24 := by
  have hlen : ∀ l ∈ cs.map packEntry, l.length = 24 := by
    intro l hl
    obtain ⟨c, -, rfl⟩ := List.mem_map.mp hl
    exact length_packEntry c
  have hentries := length_flatten_of_length hlen
  rw [List.length_map] at hentries
  change (doubleHeader ++ (cs.map packEntry).flatten).length = _
  rw [List.length_append, hentries]
  rfl

/-- The size of a merged file counts its header once. -/
def sizedDoubleFormat : SizedFormat DoubleBits where
  toCandidateFormat := { doubleFormat with
    mergeStreamsIter := fun streams sizes => do
      let merged ← doubleFormat.mergeStreamsIter streams sizes
      return (merged.1, merged.1.flatten.length)
    mergeStreamsIter_dump := by
      intro files sizes hfiles
      obtain ⟨cs, size, hsorted, hperm, hmerge⟩ :=
        doubleFormat.mergeStreamsIter_dump files sizes hfiles
      exact ⟨cs, _, hsorted, hperm, by rw [hmerge]; rfl⟩ }
  dumpSize_eq cs := (length_dump_doubleFormat cs).symm
  mergeSize_eq files _ chunks size h := by
    obtain ⟨merged, -, heq⟩ := bind_eq_ok.mp h
    obtain ⟨rfl, rfl⟩ := Prod.mk.inj (Except.ok.inj heq)
    rfl

/-- The one chunk pair of the two data providers. -/
def onlyChunks : ChunkPair := (⟨1, 0, (0, 1), 1⟩, ⟨2, 1, (0, 2), 2⟩)

theorem storedOnce_onlyChunks : ∀ chunks ∈ [onlyChunks],
    StoredOnce oneToTwo 1 equalEncodings chunks.1 ∧
      StoredOnce oneToTwo 1 equalEncodings chunks.2 := by
  intro chunks hchunks
  obtain rfl := List.mem_singleton.mp hchunks
  exact ⟨⟨storedDatasets_oneToTwo.rows 1 (by decide), by decide⟩,
    storedDatasets_oneToTwo.rows 2 (by decide), by decide⟩

theorem computeFilterSimilarity_exact_onlyChunks : ∃ s' result,
    computeFilterSimilarity sizedDoubleFormat longCodes equalFirst oneToTwo 0x3FF0000000000000 1
      true none 10 [onlyChunks] twoFiles = (s', .ok (some result)) ∧
    ExactFile sizedDoubleFormat twoFiles s' ([onlyChunks].flatMap
      (foundPairs oneToTwo 1 equalEncodings equalFirst 0x3FF0000000000000 [onlyChunks]))
      result := by
  obtain ⟨hexact, hruns⟩ := computeFilterSimilarity_exact equalFirst sizedDoubleFormat longCodes
    0x3FF0000000000000 storedOnce_onlyChunks true none 10 twoFiles
  have hcomparable : ∀ chunks ∈ [onlyChunks],
      Comparable equalFirst 0x3FF0000000000000 oneToTwo 1 equalEncodings [onlyChunks] chunks := by
    intro chunks hchunks
    obtain rfl := List.mem_singleton.mp hchunks
    exact ⟨⟨by decide, by decide⟩, ⟨by decide, by decide⟩, _, rfl⟩
  obtain ⟨s', result, hrun⟩ := hruns rfl (by simp) (by simp) hcomparable
  exact ⟨s', result, hrun, hexact s' result hrun⟩

end EntityService.Tasks.PackageResults
