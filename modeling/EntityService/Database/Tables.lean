import EntityService.Basic
import EntityService.Lib.Streams
import Mathlib.Data.List.TakeWhile

/-! The tables of the database that the uploads and the comparisons read and write. A table
is the list of its rows in insertion order. Rows are only ever added for data providers that
exist, so the foreign keys to `dataproviders` need no check here. -/
namespace EntityService

inductive UploadedState
  | notStarted | inProgress | done | error
deriving DecidableEq, Repr

inductive ProcessedState
  | pending | ready | error
deriving DecidableEq, Repr

inductive ResultType
  | groups | permutations | similarityScores
deriving DecidableEq, Repr

structure ProjectRow where
  projectId : ProjectId
  /-- The field `clkConfig.l` of the linkage schema, in bits. -/
  schemaLength : Option ℤ
  encodingSize : Option ℤ
  parties : ℕ
  resultType : ResultType
  markedForDeletion : Bool
  usesBlocking : Bool
deriving DecidableEq, Repr

structure DataproviderRow where
  id : DpId
  token : Token
  uploaded : UploadedState
  project : ProjectId
deriving DecidableEq, Repr

structure UploadRow where
  dp : DpId
  token : Token
  file : Option FileName
  state : ProcessedState
  encodingSize : Option ℤ
  count : ℤ
  blockCount : ℤ
deriving DecidableEq, Repr

structure BlockRow where
  dp : DpId
  blockName : BlockName
  blockId : BlockId
  count : ℤ
  state : ProcessedState
deriving DecidableEq, Repr

structure EncodingRow where
  encodingId : ℕ
  encoding : Bytes
  dp : DpId
deriving DecidableEq, Repr

structure EncodingBlockRow where
  dp : DpId
  entityId : ℕ
  encodingId : ℕ
  blockId : BlockId
deriving DecidableEq, Repr

structure Database where
  projects : List ProjectRow
  dataproviders : List DataproviderRow
  uploads : List UploadRow
  blocks : List BlockRow
  encodings : List EncodingRow
  encodingblocks : List EncodingBlockRow
  /-- The sequence behind `blocks.block_id`. -/
  nextBlockId : BlockId
deriving DecidableEq, Repr

/-- The range of a column of type `integer`. -/
def Int4 (z : ℤ) : Prop := -2 ^ 31 ≤ z ∧ z < 2 ^ 31

/-- Decided on the absolute value, which does not unfold the bound on a variable. -/
instance (z : ℤ) : Decidable (Int4 z) :=
  decidable_of_iff (z.natAbs < 2147483648 ∨ z = -2147483648) (by unfold Int4; omega)

/-- A column of type `CHAR(n)` returns its value padded with spaces. -/
def charPad (n : ℕ) (s : List Char) : List Char := s ++ List.replicate (n - s.length) ' '

def strip (s : List Char) : List Char :=
  ((s.dropWhile Char.isWhitespace).reverse.dropWhile Char.isWhitespace).reverse

/-- Text without spaces survives the padding of a `CHAR(n)` column once it is stripped. -/
theorem strip_charPad {s : List Char} (h : ∀ c ∈ s, c.isWhitespace = false) (n : ℕ) :
    strip (charPad n s) = s := by
  have hspaces : ∀ c ∈ List.replicate (n - s.length) ' ', c.isWhitespace = true := by
    intro c hc
    rw [List.eq_of_mem_replicate hc]
    decide
  cases s with
  | nil =>
    have hnil : (charPad n []).dropWhile Char.isWhitespace = [] :=
      List.dropWhile_eq_nil_iff.mpr hspaces
    simp [strip, hnil]
  | cons c s =>
    have hc : c.isWhitespace = false := h c List.mem_cons_self
    have htrim : strip (c :: s) = c :: s := by
      apply Lib.trim_eq_self
      · exact fun x hx => h x (List.mem_of_mem_head? hx)
      · exact fun x hx => h x (List.mem_of_getLast? hx)
    unfold strip at htrim ⊢
    rw [List.dropWhile_cons_of_neg (by simp [hc])] at htrim
    rw [charPad, List.cons_append, List.dropWhile_cons_of_neg (by simp [hc]), ← List.cons_append,
      List.reverse_append, List.reverse_replicate, List.dropWhile_append_of_pos hspaces, htrim]

end EntityService
