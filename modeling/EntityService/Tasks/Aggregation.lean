import EntityService.Lib.Action
import EntityService.Lib.Streams
import EntityService.Basic
import Mathlib.Data.List.Sort
import Mathlib.Data.Prod.Lex

/-! Aggregation of the similarity files of a run: a heap of files, of which the two smallest
are merged until one is left. -/
namespace EntityService.Tasks.Aggregation
open Lib

/-- A similarity with its dataset indices and record indices, which are unsigned 32-bit. -/
structure CandidatePair (σ : Type) where
  sim : σ
  dsetI0 : UInt32
  dsetI1 : UInt32
  recI0 : UInt32
  recI1 : UInt32
deriving DecidableEq

namespace CandidatePair
variable {σ : Type}

/-- Descending similarity, then the dataset indices, then the record indices. -/
def key (c : CandidatePair σ) : σᵒᵈ ×ₗ ℕ ×ₗ ℕ ×ₗ ℕ ×ₗ ℕ :=
  toLex (.toDual c.sim, toLex (c.dsetI0.toNat, toLex (c.dsetI1.toNat,
    toLex (c.recI0.toNat, c.recI1.toNat))))

theorem key_injective : Function.Injective (key : CandidatePair σ → _) := by
  intro ⟨s, a, b, c, d⟩ ⟨s', a', b', c', d'⟩ h
  simp only [key, EmbeddingLike.apply_eq_iff_eq, Prod.mk.injEq, UInt32.toNat_inj] at h
  obtain ⟨rfl, rfl, rfl, rfl, rfl⟩ := h
  rfl

variable [LinearOrder σ]

def Before (c d : CandidatePair σ) : Prop := c.key ≤ d.key

instance : DecidableRel (Before (σ := σ)) := fun c d => inferInstanceAs (Decidable (c.key ≤ d.key))

instance : Std.Antisymm (Before (σ := σ)) := ⟨fun _ _ h h' => key_injective (le_antisymm h h')⟩

instance : IsTrans (CandidatePair σ) Before := ⟨fun _ _ _ h h' => le_trans h h'⟩

instance : Std.Total (Before (σ := σ)) := ⟨fun _ _ => le_total _ _⟩

end CandidatePair

/-- The candidate pairs of a file, in the order that files are merged in. -/
def Sorted {σ : Type} [LinearOrder σ] (cs : List (CandidatePair σ)) : Prop :=
  cs.Pairwise CandidatePair.Before

/-- The files of candidate pairs that `anonlink.serialization` writes and merges. Merging
yields the header and then every entry of the inputs in order. -/
structure CandidateFormat (σ : Type) [LinearOrder σ] where
  header : Bytes
  entry : CandidatePair σ → Bytes
  entry_ne_header : ∀ c, entry c ≠ header
  load : Bytes → Except Error (List (CandidatePair σ))
  load_dump : ∀ cs, load (header ++ (cs.map entry).flatten) = .ok cs
  dumpSize : List (CandidatePair σ) → ℕ
  mergeStreamsIter : List Bytes → List ℕ → Except Error (List Bytes × ℕ)
  mergeStreamsIter_dump : ∀ (files : List (List (CandidatePair σ))) (sizes : List ℕ),
    (∀ cs ∈ files, Sorted cs) → ∃ cs size, Sorted cs ∧ cs.Perm files.flatten ∧
      mergeStreamsIter (files.map fun cs => header ++ (cs.map entry).flatten) sizes =
        .ok (header :: cs.map entry, size)

namespace CandidateFormat
variable {σ : Type} [LinearOrder σ] (fmt : CandidateFormat σ)

/-- The bytes of a file with the given entries. -/
def dump (cs : List (CandidatePair σ)) : Bytes := fmt.header ++ (cs.map fmt.entry).flatten

theorem dump_injective : Function.Injective fmt.dump := by
  intro cs ds h
  have hload := congrArg fmt.load h
  unfold dump at hload
  rw [fmt.load_dump, fmt.load_dump] at hload
  exact Except.ok.inj hload

theorem entry_injective : Function.Injective fmt.entry := by
  intro c d h
  have hdump : fmt.dump [c] = fmt.dump [d] := by simp [dump, h]
  exact List.head_eq_of_cons_eq (fmt.dump_injective hdump)

end CandidateFormat

abbrev RunId := String

/-- The number of candidate pairs of a package, with the size and name of its file. -/
abbrev PackageResult := ℕ × Option ℕ × Option FileName

structure ResultFile where
  num : ℕ
  filesize : ℕ
  filename : FileName
deriving DecidableEq, Repr

/-- The order of tuples. -/
def ResultFile.le (f g : ResultFile) : Prop :=
  f.num < g.num ∨ f.num = g.num ∧
    (f.filesize < g.filesize ∨ f.filesize = g.filesize ∧ f.filename ≤ g.filename)

instance : DecidableRel ResultFile.le := fun _ _ => inferInstanceAs (Decidable (_ ∨ _))

/-- The object store, the table of recorded files and the number of codes generated. -/
structure ResultStore where
  objects : Dict FileName Bytes
  similarityScores : List (RunId × FileName)
  codes : ℕ

abbrev Aggregate := Action ResultStore Error

def SIMILARITY_SCORES_FILENAME_FMT (code : String) : FileName :=
  "similarity-scores/" ++ code ++ ".bin"

/-- The codes that `generate_code` draws one after the other, none of them twice. -/
structure Codes where
  generateCode : ℕ → String
  injective : Function.Injective generateCode

namespace Codes
variable (codes : Codes)

/-- The name of the file that is written after `n` others. -/
def filename (n : ℕ) : FileName := SIMILARITY_SCORES_FILENAME_FMT (codes.generateCode n)

theorem filename_injective : Function.Injective codes.filename := by
  intro m n h
  unfold filename SIMILARITY_SCORES_FILENAME_FMT at h
  have hlist := congrArg String.toList h
  simp only [String.toList_append, List.append_cancel_right_eq, List.append_cancel_left_eq] at hlist
  exact codes.injective (String.toList_injective hlist)

end Codes

def generateFilename (codes : Codes) : Aggregate FileName := do
  let s ← Action.get
  Action.modify fun s => { s with codes := s.codes + 1 }
  return codes.filename s.codes

def putObject (filename : FileName) (data : Bytes) : Aggregate Unit :=
  Action.modify fun s => { s with objects := s.objects.set filename data }

def getObject (filename : FileName) : Aggregate Bytes := do
  let s ← Action.get
  Action.lift (orRaise (s.objects.get? filename) .s3Error)

def removeObjects (filenames : List FileName) : Aggregate Unit :=
  Action.modify fun s => { s with objects := filenames.foldl Dict.erase s.objects }

/-- The unique values of a sorted iterable. The generator turns a `StopIteration` inside it into
a `RuntimeError`. -/
def uniqueValuesIter : List Bytes → Except Error (List Bytes)
  | [] => .error .runtimeError
  | previous :: it => .ok (it.destutter' (· ≠ ·) previous)

/-- The file of a result. A package that is missing stops the aggregation. -/
def resultFile (res : Option PackageResult) : Except Error (Option ResultFile) := do
  let (num, filesize, filename) ← orRaise res Error.typeError
  if num ≠ 0 then
    return some ⟨num, ← orRaise filesize Error.assertionError,
      ← orRaise filename Error.assertionError⟩
  else
    ensure (filesize = none ∧ filename = none) Error.assertionError
    return none

def resultFiles (results : List (Option PackageResult)) : Except Error (List ResultFile) := do
  return (← results.mapM resultFile).reduceOption

section Merging
variable {σ : Type} [LinearOrder σ] (fmt : CandidateFormat σ) (codes : Codes)

def putPlaceholderEmptyFile : Aggregate ResultFile := do
  let name ← generateFilename codes
  putObject name (fmt.dump [])
  return ⟨0, fmt.dumpSize [], name⟩

/-- Merge two files into a new one without repeated entries, and remove them. -/
def mergeFiles (file0 file1 : ResultFile) : Aggregate ResultFile := do
  let stream0 ← getObject file0.filename
  let stream1 ← getObject file1.filename
  let (merged, size) ← Action.lift
    (fmt.mergeStreamsIter [stream0, stream1] [file0.filesize, file1.filesize])
  let name ← generateFilename codes
  let unique ← Action.lift (uniqueValuesIter merged)
  putObject name unique.flatten
  removeObjects [file0.filename, file1.filename]
  return ⟨file0.num + file1.num, size, name⟩

/-- Merge the two smallest files of the heap until at most one is left. The heap is the list
of its files in the order in which they are popped. -/
def mergeHeap : List ResultFile → Aggregate (List ResultFile)
  | file0 :: file1 :: files => do
    let merged ← mergeFiles fmt codes file0 file1
    mergeHeap (files.orderedInsert ResultFile.le merged)
  | files => return files
termination_by files => files.length
decreasing_by simp [List.orderedInsert_length]

/-- Merge the result files of a run and record the name of the file that is left. -/
def aggregateComparisons (similarityResultFiles : Option (List (Option PackageResult)))
    (runId : RunId) : Aggregate Unit := do
  let results ← Action.lift (orRaise similarityResultFiles .typeError)
  let files ← Action.lift (resultFiles results)
  let files ← mergeHeap fmt codes (files.insertionSort ResultFile.le)
  let file ← match files with
    | [] => putPlaceholderEmptyFile fmt codes
    | file :: _ => pure file
  Action.modify fun s =>
    { s with similarityScores := s.similarityScores ++ [(runId, file.filename)] }

end Merging
end EntityService.Tasks.Aggregation
