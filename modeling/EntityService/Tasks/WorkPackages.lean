import EntityService.Basic
import EntityService.Lib.Tiling

/-! Scheduling of the comparisons of a run: the blocks that pairs of data providers have
in common, and the packages of chunk pairs handed to the compute tasks. -/
namespace EntityService.Tasks
open Lib

/-- Number of encodings in each block of each data provider. -/
abbrev BlockSizes := Dict DpId (Dict BlockName ℕ)

/-- Primary key of each block of each data provider. -/
abbrev BlockLookups := Dict DpId (Dict BlockName BlockId)

/-- A block name and the two data providers that both have it. -/
abbrev CommonBlock := BlockName × DpId × DpId

/-- One side of a chunk pair. -/
structure ChunkInfo where
  dataproviderId : DpId
  datasetIndex : ℕ
  range : Range
  blockId : BlockId
deriving DecidableEq, Repr

abbrev ChunkPair := ChunkInfo × ChunkInfo

abbrev Package := List ChunkPair

/-- The two-element combinations of a list, in the order of `itertools.combinations`. -/
def combinations2 {α : Type*} : List α → List (α × α)
  | [] => []
  | x :: xs => xs.map (fun y => (x, y)) ++ combinations2 xs

/-- The order in which the intersection of two sets of names is iterated. Python leaves
it open, so any permutation may be chosen for each pair of data providers. -/
structure SetOrder where
  order : DpId → DpId → List BlockName → List BlockName
  perm : ∀ a b l, (order a b l).Perm l

/-- `anonlink.concurrency.split_to_chunks` for two datasets. -/
structure SplitToChunks where
  run : ℕ → ℕ → ℕ → List (Range × Range)
  tiles : ∀ aim m n, 1 ≤ aim → 0 < m → 0 < n → Tiles m n (run aim m n)

def commonBlocksOfPair (so : SetOrder) (dpBlockSizes : BlockSizes) (dps : DpId × DpId) :
    Option (List CommonBlock) := do
  let sizes1 ← dpBlockSizes.get? dps.1
  let sizes2 ← dpBlockSizes.get? dps.2
  let commonBlockIds := so.order dps.1 dps.2 (sizes1.keys.filter (fun b => b ∈ sizes2.keys))
  return commonBlockIds.map (fun blockId => (blockId, dps))

/-- `none` is a `KeyError` on a data provider without an entry. -/
def getCommonBlocks (so : SetOrder) (dpBlockSizes : BlockSizes) (dpIds : List DpId) :
    Option (List CommonBlock) := do
  let blocks ← (combinations2 dpIds).mapM (commonBlocksOfPair so dpBlockSizes)
  return blocks.flatten

/-- The data provider and the dataset index written into the left and the right chunk. -/
def addDpIdToChunkInfo (dpIds : List DpId) (dpIdLeft dpIdRight : DpId) :
    Option ((DpId × ℕ) × (DpId × ℕ)) := do
  let dpindx := Dict.ofList (dpIds.zip (List.range dpIds.length))
  let left ← dpindx.get? dpIdLeft
  let right ← dpindx.get? dpIdRight
  return ((dpIdLeft, left), (dpIdRight, right))

def lookup {ν : Type*} (table : Dict DpId (Dict BlockName ν)) (dp : DpId) (name : BlockName) :
    Option ν := do
  (← table.get? dp).get? name

def chunkInfo (dpIds : List DpId) (blockLookups : BlockLookups) (block : CommonBlock)
    (ranges : Range × Range) : Option ChunkPair := do
  let (name, dp1, dp2) := block
  let (left, right) ← addDpIdToChunkInfo dpIds dp1 dp2
  let leftBlock ← lookup blockLookups dp1 name
  let rightBlock ← lookup blockLookups dp2 name
  return (⟨left.1, left.2, ranges.1, leftBlock⟩, ⟨right.1, right.2, ranges.2, rightBlock⟩)

def MAX_CHUNKS_PER_PACKAGE : ℕ := 100000

/-- The state of the packing loop. -/
structure Packing where
  packages : List Package
  curPackage : Package
  curComparisons : ℕ
deriving DecidableEq, Repr

/-- One iteration of the packing loop. A block of more than `chunkSizeAim` comparisons
flushes the current package and is cut into packages of one chunk pair each; a smaller
one joins the current package while it fits, or starts a new package. -/
def packBlock (split : SplitToChunks) (dpBlockSizes : BlockSizes) (dpIds : List DpId)
    (blockLookups : BlockLookups) (chunkSizeAim : ℕ) (st : Packing) (block : CommonBlock) :
    Option Packing := do
  let size1 ← lookup dpBlockSizes block.2.1 block.1
  let size2 ← lookup dpBlockSizes block.2.2 block.1
  let numComparisons := size1 * size2
  if chunkSizeAim < numComparisons then
    let chunks ← (split.run chunkSizeAim size1 size2).mapM (chunkInfo dpIds blockLookups block)
    if 0 < st.curPackage.length then
      return ⟨st.packages ++ [st.curPackage] ++ chunks.map (fun c => [c]), [], 0⟩
    else
      return { st with packages := st.packages ++ chunks.map (fun c => [c]) }
  else
    let chunk ← chunkInfo dpIds blockLookups block ((0, size1), (0, size2))
    if st.curComparisons + numComparisons ≤ chunkSizeAim ∧
        st.curPackage.length < MAX_CHUNKS_PER_PACKAGE then
      return ⟨st.packages, st.curPackage ++ [chunk], st.curComparisons + numComparisons⟩
    else
      return ⟨st.packages ++ [st.curPackage], [chunk], numComparisons⟩

/-- Append the last package unless it is empty. -/
def Packing.finish (st : Packing) : List Package :=
  if 0 < st.curPackage.length then st.packages ++ [st.curPackage] else st.packages

/-- `none` is a `KeyError` on an unknown data provider or block name. -/
def createWorkPackages (split : SplitToChunks) (blocks : List CommonBlock)
    (dpBlockSizes : BlockSizes) (dpIds : List DpId) (blockLookups : BlockLookups)
    (chunkSizeAim : ℕ) : Option (List Package) := do
  let st ← blocks.foldlM (packBlock split dpBlockSizes dpIds blockLookups chunkSizeAim) ⟨[], [], 0⟩
  return st.finish

end EntityService.Tasks
