import EntityService.EncodingStorage.Fetched
import EntityService.Lib.MostSimilar
import EntityService.Tasks.Scheduling

/-! The similarities that a task computes for its package. Each chunk pair is compared on its own,
and asks for no more matches of a record than the smaller of its chunks has records. -/
namespace EntityService.Tasks.Similarity
open Lib

/-- A record by the index of its dataset and its entity id. -/
abbrev RecordId := ℕ × ℕ

def similarity (dice : Bytes → Bytes → ℚ) (datasets : List Bytes × List Bytes) (i j : ℕ) : ℚ :=
  dice ((datasets.1[i]?).getD []) ((datasets.2[j]?).getD [])

/-- The records of the second dataset that reach the threshold for one of the first. -/
def matching (dice : Bytes → Bytes → ℚ) (datasets : List Bytes × List Bytes) (threshold : ℚ)
    (i : ℕ) : List ℕ :=
  (List.range datasets.2.length).filter fun j => threshold ≤ similarity dice datasets i j

/-- `anonlink.similarities.dice_coefficient_accelerated`: for each record of the first dataset at
most `k` of the most similar records of the second that reach the threshold. The entries are
similarities with the indices of both records. Which of equally similar records are returned may
be different in each call, of which there is one for each chunk pair. -/
structure DiceCoefficientAccelerated (dice : Bytes → Bytes → ℚ) where
  run : ChunkPair → List Bytes × List Bytes → ℚ → ℕ → List (ℚ × ℕ × ℕ)
  sound : ∀ call datasets threshold k, ∀ r ∈ run call datasets threshold k,
    r.2.1 < datasets.1.length ∧ r.1 = similarity dice datasets r.2.1 r.2.2
  best : ∀ call datasets threshold k, ∀ i < datasets.1.length,
    MostSimilar (similarity dice datasets i) k (matching dice datasets threshold i)
      (((run call datasets threshold k).filter fun r => r.2.1 = i).map fun r => r.2.2)

/-- The result of a chunk pair: similarities with the entity ids of both records. -/
structure SimResult where
  sims : List (ℚ × ℕ × ℕ)
  datasetIndex0 : ℕ
  datasetIndex1 : ℕ
deriving DecidableEq, Repr

def SimResult.candidatePairs (r : SimResult) : List (RecordId × RecordId) :=
  r.sims.map fun s => ((r.datasetIndex0, s.2.1), (r.datasetIndex1, s.2.2))

section Task
variable {dice : Bytes → Bytes → ℚ} (anonlink : DiceCoefficientAccelerated dice) (db : Database)
  (threshold : ℚ) (encodingSize : ℤ)

/-- A chunk that is the only one of its package. No two lists are taken apart from nothing. -/
def fetchSingleChunk (chunkInfo : ChunkInfo) : Except Error FetchedChunk := do
  let (chunkWithIds, _) ← getEncodingChunk db chunkInfo encodingSize
  ensure (chunkWithIds ≠ []) Error.valueError
  return ⟨chunkInfo, chunkWithIds.map Prod.fst, chunkWithIds.map Prod.snd⟩

def packageWithEncodingData (package : Package) :
    Except Error (List (FetchedChunk × FetchedChunk)) :=
  if 1 < package.length then getEncodingChunks db package encodingSize
  else do
    let (chunkInfoDp1, chunkInfoDp2) ← orRaise package.head? Error.indexError
    let chunkDp1 ← fetchSingleChunk db encodingSize chunkInfoDp1
    let chunkDp2 ← fetchSingleChunk db encodingSize chunkInfoDp2
    return [(chunkDp1, chunkDp2)]

def compareChunks (pair : FetchedChunk × FetchedChunk) : Except Error SimResult := do
  let (chunkDp1, chunkDp2) := pair
  let encDp1Size := chunkDp1.encodings.length
  let encDp2Size := chunkDp2.encodings.length
  ensure (0 < encDp1Size) Error.assertionError
  ensure (0 < encDp2Size) Error.assertionError
  let results := anonlink.run (chunkDp1.chunkInfo, chunkDp2.chunkInfo)
    (chunkDp1.encodings, chunkDp2.encodings) threshold (min encDp1Size encDp2Size)
  -- from indices in the chunks to the ids of the encodings
  let sims ← results.mapM fun s => do
    let recIs0 ← orRaise chunkDp1.entityIds[s.2.1]? Error.indexError
    let recIs1 ← orRaise chunkDp2.entityIds[s.2.2]? Error.indexError
    return (s.1, recIs0, recIs1)
  return ⟨sims, chunkDp1.chunkInfo.datasetIndex, chunkDp2.chunkInfo.datasetIndex⟩

/-- `compute_filter_similarity` up to its results. A task that raises an exception has none. -/
def computeSimilarities (package : Package) : Except Error (List SimResult) := do
  (← packageWithEncodingData db encodingSize package).mapM (compareChunks anonlink threshold)

/-- The task of the package emits a candidate pair. -/
def Emits (package : Package) (pair : RecordId × RecordId) : Prop :=
  ∃ results, computeSimilarities anonlink db threshold encodingSize package = .ok results ∧
    ∃ r ∈ results, pair ∈ r.candidatePairs

end Task

/-- Datasets of encodings of one size in the database. A block of a dataset has a name of its own
and at least one record, and lists none twice. -/
structure StoredDatasets (db : Database) (dpIds : List DpId) (size : ℕ)
    (encodings : DpId → List Bytes) : Prop where
  distinct : dpIds.Nodup
  length : ∀ dpId ∈ dpIds, ∀ e ∈ encodings dpId, e.length = size
  rows : ∀ dpId ∈ dpIds, StoredRows db dpId size (encodings dpId)
  names : ∀ dpId ∈ dpIds, ((db.getBlockMetadata dpId).map Prod.fst).Nodup
  blocks : ∀ dpId ∈ dpIds, ∀ block ∈ db.getBlockMetadata dpId,
    blockEntityIds db dpId block.2.1 ≠ [] ∧ (blockEntityIds db dpId block.2.1).Nodup ∧
      block.2.2 = (blockEntityIds db dpId block.2.1).length

section Specification
variable (dice : Bytes → Bytes → ℚ) (db : Database) (dpIds : List DpId)
  (encodings : DpId → List Bytes) (threshold : ℚ)

def encodingOf (dpId : DpId) (i : ℕ) : Bytes := ((encodings dpId)[i]?).getD []

/-- The block with a name of a data provider holds a record. -/
def InBlock (dpId : DpId) (name : BlockName) (i : ℕ) : Prop :=
  ∃ blockId count, (name, blockId, count) ∈ db.getBlockMetadata dpId ∧
    i ∈ blockEntityIds db dpId blockId

/-- Two records of an earlier and a later data provider share a block and are similar. -/
def Qualifies (pair : RecordId × RecordId) : Prop :=
  pair.1.1 < pair.2.1 ∧ ∃ dp1 dp2, dpIds[pair.1.1]? = some dp1 ∧ dpIds[pair.2.1]? = some dp2 ∧
    (∃ name, InBlock db dp1 name pair.1.2 ∧ InBlock db dp2 name pair.2.2) ∧
      threshold ≤ dice (encodingOf encodings dp1 pair.1.2) (encodingOf encodings dp2 pair.2.2)

/-- The tasks of the packages emit the pairs that qualify, and no others. -/
def Complete {dice : Bytes → Bytes → ℚ} (anonlink : DiceCoefficientAccelerated dice)
    (size : ℕ) (packages : List Package) : Prop :=
  ∀ pair, (∃ package ∈ packages, Emits anonlink db threshold size package pair) ↔
    Qualifies dice db dpIds encodings threshold pair

def recordsIn (dpId : DpId) (blockId : BlockId) (range : Range) : List ℕ :=
  ((blockEntityIds db dpId blockId).drop range.1).take (range.2 - range.1)

/-- Some chunk pair that holds both records asks for as many matches of the first as there are
records in its second chunk that are at least as similar to it as the second is. -/
def Asked (split : SplitToChunks) (chunkSizeAim : ℕ) (dp1 dp2 : DpId) (i j : ℕ) : Prop :=
  ∃ name blockId1 count1 blockId2 count2,
    (name, blockId1, count1) ∈ db.getBlockMetadata dp1 ∧
    (name, blockId2, count2) ∈ db.getBlockMetadata dp2 ∧
    ∃ piece ∈ pieces split chunkSizeAim count1.toNat count2.toNat,
      i ∈ recordsIn db dp1 blockId1 piece.1 ∧ j ∈ recordsIn db dp2 blockId2 piece.2 ∧
      ((recordsIn db dp2 blockId2 piece.2).countP fun j' =>
        dice (encodingOf encodings dp1 i) (encodingOf encodings dp2 j) ≤
          dice (encodingOf encodings dp1 i) (encodingOf encodings dp2 j')) ≤
        min (recordsIn db dp1 blockId1 piece.1).length (recordsIn db dp2 blockId2 piece.2).length

/-- No pair that qualifies is cut off by the number of matches that is asked for. -/
def NothingCutOff (split : SplitToChunks) (chunkSizeAim : ℕ) : Prop :=
  ∀ pair, Qualifies dice db dpIds encodings threshold pair →
    ∀ dp1 dp2, dpIds[pair.1.1]? = some dp1 → dpIds[pair.2.1]? = some dp2 →
      Asked dice db encodings split chunkSizeAim dp1 dp2 pair.1.2 pair.2.2

end Specification
end EntityService.Tasks.Similarity
