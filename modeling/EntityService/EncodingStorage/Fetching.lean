import EntityService.EncodingStorage.Pipeline
import EntityService.Tasks.WorkPackages
import Mathlib.Data.List.Sort

/-! Fetching the stored encodings of a block, for one chunk or for a package of chunks. Rows
that an `ORDER BY` does not tell apart keep the order of the table. -/
namespace EntityService
open Lib

namespace Database

/-- The entity ids in a block in ascending order. A block number is never zero. -/
def getEncodingblockIds (db : Database) (dpId : DpId) (blockId : BlockId) (offset limit : ℕ) :
    List ℕ :=
  let entityIds := (db.encodingblocks.filter (fun r => r.dp = dpId ∧ r.blockId = blockId)).map
    EncodingBlockRow.entityId
  ((entityIds.insertionSort (· ≤ ·)).drop offset).take limit

/-- The encoding ids are listed after `IN`, where PostgreSQL accepts no empty list. -/
def getChunkOfEncodings (db : Database) (dpId : DpId) (entityIds : List ℕ) :
    Except Error (List Bytes) := do
  let encodingIds := computeEncodingIds entityIds dpId
  ensure (encodingIds ≠ []) .databaseError
  let rows := db.encodings.filter (fun r => r.encodingId ∈ encodingIds)
  return (rows.insertionSort fun r s => r.encodingId ≤ s.encodingId).map EncodingRow.encoding

/-- The join of the rows of several blocks with their encodings. -/
def getEncodingsOfMultipleBlocks (db : Database) (dpId : DpId) (blockIds : List BlockId) :
    List (BlockId × ℕ × Bytes) :=
  let rows := (db.encodingblocks.filter (fun r => r.dp = dpId ∧ r.blockId ∈ blockIds)).flatMap
    fun r => (db.encodings.filter (fun e => e.encodingId = r.encodingId)).map
      fun e => (r.blockId, r.entityId, e.encoding)
  rows.insertionSort fun a b => a.1 < b.1 ∨ a.1 = b.1 ∧ a.2.1 ≤ b.2.1

end Database

/-- The stream is only asked for once the format is made. -/
def binaryUnpackFilters (dataIterable : Except Error (List Bytes)) (encodingSize : ℤ) :
    Except Error (List (ℕ × Bytes)) := do
  let bitPackedElement ← binaryFormat encodingSize
  (← dataIterable).mapM bitPackedElement.unpack

def getEncodingChunk (db : Database) (chunkInfo : Tasks.ChunkInfo) (encodingSize : ℤ) :
    Except Error (List (ℕ × Bytes) × ℕ) := do
  let limit := chunkInfo.range.2 - chunkInfo.range.1
  let entityIds := db.getEncodingblockIds chunkInfo.dataproviderId chunkInfo.blockId
    chunkInfo.range.1 limit
  let chunkData ← binaryUnpackFilters
    (db.getChunkOfEncodings chunkInfo.dataproviderId entityIds) encodingSize
  return (chunkData, chunkData.length)

def unpackEncoding (bitPackingStruct : BitPacking) (encoding : Bytes) : Except Error Bytes := do
  return (← bitPackingStruct.unpack encoding).2

/-- The loop of `block_values_iter`, with the run of values that it is in. -/
def blockValues (bitPackingStruct : BitPacking) (blockId : BlockId) (entityIds : List ℕ)
    (encodings : List Bytes) :
    List (BlockId × ℕ × Bytes) → Except Error (List (BlockId × List ℕ × List Bytes))
  | [] => .ok [(blockId, entityIds, encodings)]
  | (newId, entityId, encoding) :: values => do
    let data ← unpackEncoding bitPackingStruct encoding
    if newId = blockId then
      blockValues bitPackingStruct blockId (entityIds ++ [entityId]) (encodings ++ [data]) values
    else
      let rest ← blockValues bitPackingStruct newId [entityId] [data] values
      return (blockId, entityIds, encodings) :: rest

/-- The runs of one block each. Without a first value the generator raises. -/
def blockValuesIter (bitPackingStruct : BitPacking) :
    List (BlockId × ℕ × Bytes) → Except Error (List (BlockId × List ℕ × List Bytes))
  | [] => .error .runtimeError
  | (blockId, entityId, encoding) :: values => do
    let data ← unpackEncoding bitPackingStruct encoding
    blockValues bitPackingStruct blockId [entityId] [data] values

structure FetchedChunk where
  chunkInfo : Tasks.ChunkInfo
  entityIds : List ℕ
  encodings : List Bytes
deriving DecidableEq, Repr

def chunksPerDp (package : Tasks.Package) : Dict DpId (List Tasks.ChunkInfo) :=
  Dict.groupBy Tasks.ChunkInfo.dataproviderId (package.flatMap fun pair => [pair.1, pair.2])

def blocksOfDp (db : Database) (encodingSize : ℤ) (dpId : DpId) (chunks : List Tasks.ChunkInfo) :
    Except Error (List ((DpId × BlockId) × List ℕ × List Bytes)) := do
  let blockIds := (chunks.insertionSort fun a b => a.blockId ≤ b.blockId).map
    Tasks.ChunkInfo.blockId
  let values := db.getEncodingsOfMultipleBlocks dpId blockIds
  let bitPackingStruct ← binaryFormat encodingSize
  let blocks ← blockValuesIter bitPackingStruct values
  return blocks.map fun block => ((dpId, block.1), block.2)

def fetchedChunk (encodingsWithIds : Dict (DpId × BlockId) (List ℕ × List Bytes))
    (chunkInfo : Tasks.ChunkInfo) : Except Error FetchedChunk := do
  let (entityIds, encodings) ←
    orRaise (encodingsWithIds.get? (chunkInfo.dataproviderId, chunkInfo.blockId)) Error.keyError
  return ⟨chunkInfo, entityIds, encodings⟩

/-- Enrich the chunks in the package with the encodings and entity ids of their blocks. -/
def getEncodingChunks (db : Database) (package : Tasks.Package) (encodingSize : ℤ) :
    Except Error (List (FetchedChunk × FetchedChunk)) := do
  let blocks ← (chunksPerDp package).entries.mapM fun p => blocksOfDp db encodingSize p.1 p.2
  let encodingsWithIds := Dict.ofList blocks.flatten
  package.mapM fun pair => do
    let left ← fetchedChunk encodingsWithIds pair.1
    let right ← fetchedChunk encodingsWithIds pair.2
    return (left, right)

end EntityService
