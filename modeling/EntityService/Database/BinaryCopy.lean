import EntityService.Lib.Iterator
import EntityService.Lib.Reading
import EntityService.Serialization

/-! The binary COPY format of PostgreSQL and the generator that parses it. The format carries the
number of fields of a row and the length of each field, and ends with a count of minus one. -/
namespace EntityService.Database
open Lib

section Parsing

def readFields : ℕ → Bytes → List Bytes × Bytes
  | 0, stream => ([], stream)
  | n + 1, stream =>
    let (length, stream) := readUpTo 4 stream
    let size := fromBytes length
    let (elValue, stream) := readUpTo size stream
    let (rowValues, stream) := readFields n stream
    (elValue :: rowValues, stream)

/-- A row with one field is the bare field. -/
inductive Row
  | value (elValue : Bytes)
  | values (rowValues : List Bytes)
deriving DecidableEq, Repr

def Row.ofValues : List Bytes → Row
  | [elValue] => .value elValue
  | rowValues => .values rowValues

/-- The loop of the generator up to its next row. It returns at the trailer. -/
def nextRow (stream : Bytes) : Option (Row × Bytes) :=
  let (count, stream) := readUpTo 2 stream
  let numElements := fromBytes count
  if numElements = 65535 then none
  else
    let (rowValues, stream) := readFields numElements stream
    some (Row.ofValues rowValues, stream)

/-- `PGCOPY\n\xff\r\n\x00` and the flags -/
def header : Bytes := [80, 71, 67, 79, 80, 89, 10, 255, 13, 10, 0, 0, 0, 0, 0]

def headerExtension : Bytes := [0, 0, 0, 0]

def skipHeader (stream : Bytes) : Except Error Bytes := do
  let (start, stream) := readUpTo 15 stream
  ensure (start = header) Error.assertionError
  let (extension, stream) := readUpTo 4 stream
  ensure (extension = headerExtension) Error.assertionError
  return stream

/-- Iterating over the generator: the rows when it returns after fewer than `n` of them. -/
def binaryRows (n : ℕ) (stream : Bytes) : Except Error (Option (List Row)) := do
  let stream ← skipHeader stream
  return exhaust nextRow n stream

end Parsing

section Format

def packUInt16 (n : ℕ) : Bytes := [n / 2 ^ 8, n].map UInt8.ofNat

def copyField (elValue : Bytes) : Bytes := packUInt32 elValue.length ++ elValue

def copyRow (rowValues : List Bytes) : Bytes :=
  packUInt16 rowValues.length ++ rowValues.flatMap copyField

def trailer : Bytes := [255, 255]

/-- What PostgreSQL sends for a list of rows without nulls. -/
def copyStream (rows : List (List Bytes)) : Bytes :=
  header ++ headerExtension ++ (rows.flatMap copyRow ++ trailer)

/-- The number of fields and their lengths are positive as signed integers. -/
structure Copyable (rows : List (List Bytes)) : Prop where
  count : ∀ row ∈ rows, row.length < 2 ^ 15
  length : ∀ row ∈ rows, ∀ elValue ∈ row, elValue.length < 2 ^ 31

/-- A complete stream. -/
def WellFormed (stream : Bytes) : Prop := ∃ rows, Copyable rows ∧ stream = copyStream rows

end Format

theorem fromBytes_packUInt16 {n : ℕ} (h : n < 2 ^ 16) : fromBytes (packUInt16 n) = n := by
  simp only [fromBytes, packUInt16, List.map_cons, List.map_nil, List.foldl_cons,
    List.foldl_nil, UInt8.toNat_ofNat']
  omega

@[simp] theorem length_packUInt16 (n : ℕ) : (packUInt16 n).length = 2 := rfl

@[simp] theorem length_packUInt32 (n : ℕ) : (packUInt32 n).length = 4 := rfl

section RoundTrip

/-- A counted run of fields is read back, whatever follows it. -/
theorem readFields_copyField {rowValues : List Bytes} (h : ∀ v ∈ rowValues, v.length < 2 ^ 31)
    (rest : Bytes) :
    readFields rowValues.length (rowValues.flatMap copyField ++ rest) = (rowValues, rest) := by
  induction rowValues with
  | nil => rfl
  | cons elValue rowValues ih =>
    obtain ⟨hsize, htail⟩ := List.forall_mem_cons.mp h
    have hlength : fromBytes (packUInt32 elValue.length) = elValue.length :=
      fromBytes_packUInt32 (by omega)
    rw [List.length_cons, readFields, List.flatMap_cons, copyField, List.append_assoc,
      List.append_assoc, readUpTo_append (length_packUInt32 _)]
    simp only [hlength, readUpTo_append rfl, ih htail]

theorem nextRow_copyRow {rowValues : List Bytes} (hcount : rowValues.length < 2 ^ 15)
    (h : ∀ v ∈ rowValues, v.length < 2 ^ 31) (rest : Bytes) :
    nextRow (copyRow rowValues ++ rest) = some (Row.ofValues rowValues, rest) := by
  have hnumber : fromBytes (packUInt16 rowValues.length) = rowValues.length :=
    fromBytes_packUInt16 (by omega)
  have hne : rowValues.length ≠ 65535 := by omega
  rw [nextRow, copyRow, List.append_assoc, readUpTo_append (length_packUInt16 _)]
  simp only [hnumber, if_neg hne, readFields_copyField h]

theorem nextRow_trailer (rest : Bytes) : nextRow (trailer ++ rest) = none := by
  have hnumber : fromBytes trailer = 65535 := by decide
  have hread : readUpTo 2 (trailer ++ rest) = (trailer, rest) := readUpTo_append rfl
  rw [nextRow, hread]
  exact if_pos hnumber

theorem skipHeader_copyStream (rest : Bytes) :
    skipHeader (header ++ headerExtension ++ rest) = .ok rest := rfl

theorem exhaust_copyRow {rows : List (List Bytes)} (h : Copyable rows) {n : ℕ}
    (hn : rows.length < n) (rest : Bytes) :
    exhaust nextRow n (rows.flatMap copyRow ++ (trailer ++ rest)) =
      some (rows.map Row.ofValues) := by
  induction rows generalizing n with
  | nil =>
    obtain ⟨n, rfl⟩ := Nat.exists_eq_add_one_of_ne_zero (Nat.ne_of_gt hn)
    exact exhaust_of_none (nextRow_trailer rest) n
  | cons row rows ih =>
    obtain ⟨n, rfl⟩ := Nat.exists_eq_add_one_of_ne_zero (Nat.ne_zero_of_lt hn)
    obtain ⟨hcount, hcounts⟩ := List.forall_mem_cons.mp h.count
    obtain ⟨hlength, hlengths⟩ := List.forall_mem_cons.mp h.length
    have hnext := nextRow_copyRow hcount hlength (rows.flatMap copyRow ++ (trailer ++ rest))
    have hrest := ih ⟨hcounts, hlengths⟩ (Nat.lt_of_succ_lt_succ hn)
    rw [List.flatMap_cons, List.append_assoc, exhaust_of_some hnext, hrest, Option.map_some,
      List.map_cons]

/-- What follows the trailer is not looked at. -/
theorem binaryRows_append {rows : List (List Bytes)} (h : Copyable rows) {n : ℕ}
    (hn : rows.length < n) (rest : Bytes) :
    binaryRows n (copyStream rows ++ rest) = .ok (some (rows.map Row.ofValues)) := by
  have hrows := exhaust_copyRow h hn rest
  rw [binaryRows, copyStream, List.append_assoc _ _ rest, skipHeader_copyStream, ok_bind,
    List.append_assoc, hrows]
  rfl

/-- Parsing what PostgreSQL sends yields the rows and then stops. -/
theorem binaryRows_copyStream {rows : List (List Bytes)} (h : Copyable rows) {n : ℕ}
    (hn : rows.length < n) :
    binaryRows n (copyStream rows) = .ok (some (rows.map Row.ofValues)) := by
  have hrows := binaryRows_append h hn []
  rwa [List.append_nil] at hrows

/-- A row of two fields, one of which looks like a trailer, and a row of one field. -/
theorem binaryRows_copyStream_twoRows :
    binaryRows 3 (copyStream [[[255, 255], []], [[80]]]) =
      .ok (some [.values [[255, 255], []], .value [80]]) :=
  binaryRows_copyStream (show Copyable [[[255, 255], []], [[80]]] from ⟨by decide, by decide⟩)
    (by decide)

/-- The values of a query for one column are yielded bare. -/
theorem binaryRows_oneColumn {values : List Bytes} (h : ∀ v ∈ values, v.length < 2 ^ 31) {n : ℕ}
    (hn : values.length < n) :
    binaryRows n (copyStream (values.map fun v => [v])) = .ok (some (values.map .value)) := by
  have hcopyable : Copyable (values.map fun v => [v]) := by
    constructor
    · intro row hrow
      obtain ⟨v, -, rfl⟩ := List.mem_map.mp hrow
      exact Nat.one_lt_two_pow (by decide)
    · intro row hrow
      obtain ⟨v, hv, rfl⟩ := List.mem_map.mp hrow
      intro elValue hmem
      rw [List.mem_singleton.mp hmem]
      exact h v hv
  have hlength : (values.map fun v => [v]).length < n := by
    rw [List.length_map]
    exact hn
  have hrows := binaryRows_append hcopyable hlength []
  rw [List.append_nil, List.map_map] at hrows
  exact hrows

end RoundTrip
end EntityService.Database
