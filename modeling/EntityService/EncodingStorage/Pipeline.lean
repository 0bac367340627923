import EntityService.Database.Insertions
import EntityService.Serialization

/-! The pipeline that turns uploaded encodings into rows of the database. A generator is the
list of what it yields; an element that raises ends it, since nothing after it is asked for. -/
namespace EntityService
open Lib

/-- A block identifier or an encoding as it stands in an uploaded JSON document. A text consists
of Unicode scalar values: documents with a lone surrogate, which only an escape such as `\ud800`
can spell, are left out. -/
inductive JsonScalar
  | str (s : List Char)
  | int (z : ℤ)
deriving DecidableEq, Repr

def decimal (z : ℤ) : List Char :=
  if z < 0 then '-' :: Nat.toDigits 10 z.natAbs else Nat.toDigits 10 z.natAbs

theorem decimal_natCast (n : ℕ) : decimal n = Nat.toDigits 10 n := by
  have hneg : ¬ ((n : ℤ) < 0) := by omega
  rw [decimal, if_neg hneg, Int.natAbs_natCast]

theorem decimal_natCast_injective : Function.Injective fun n : ℕ => decimal n := by
  intro m n h
  simp only [decimal_natCast] at h
  have hval := congrArg (fun cs => Nat.ofDigitChars 10 cs 0) h
  simpa only [Nat.ofDigitChars_ten_toDigits] using hval

def JsonScalar.text : JsonScalar → List Char
  | .str s => s
  | .int z => decimal z

/-- The hexadecimal digest of the 32-byte BLAKE2b hash of a text. -/
structure Blake2b where
  hexdigest : List Char → List Char
  length_hexdigest : ∀ s, (hexdigest s).length = 64
  hex : ∀ s, ∀ c ∈ hexdigest s, c ∈ "0123456789abcdef".toList

/-- The digest of the name's text in UTF-8. A text without lone surrogates can be encoded. -/
def hashBlockName (blake2b : Blake2b) (providedBlockName : JsonScalar) : BlockName :=
  blake2b.hexdigest providedBlockName.text

def DEFAULT_BLOCK_ID : BlockName := ['1']

/-- The number of encodings that likely stays under 100 MiB of data. -/
def estimateGroupSize (encodingSize : ℤ) : Except Error ℤ :=
  let divisor := 50 * 64 + (encodingSize + 4)
  if divisor = 0 then .error .zeroDivisionError else .ok ⌈(104857600 : ℚ) / divisor⌉

theorem estimateGroupSize_natCast (size : ℕ) : ∃ n, estimateGroupSize size = .ok n ∧ 1 ≤ n := by
  have hpos : (0 : ℤ) < 50 * 64 + ((size : ℤ) + 4) := by omega
  refine ⟨⌈(104857600 : ℚ) / (50 * 64 + ((size : ℤ) + 4) : ℤ)⌉, ?_, ?_⟩
  · unfold estimateGroupSize
    rw [if_neg hpos.ne']
  · refine Int.one_le_ceil_iff.mpr (div_pos (by norm_num) ?_)
    exact_mod_cast hpos

/-- The deployment's settings, and the functions that are left open. -/
structure Settings where
  blake2b : Blake2b
  minEncodingSize : ℤ
  maxEncodingSize : ℤ
  /-- The number of encodings that are stored with one statement. -/
  estimateGroupSize : ℤ → Except Error ℤ
  estimateGroupSize_natCast : ∀ size : ℕ, ∃ n, estimateGroupSize size = .ok n ∧ 1 ≤ n

/-- An entity id, an encoding and the names of its blocks. -/
abbrev Item := ℕ × Bytes × List BlockName

abbrev Generator (α : Type) := List (Except Error α)

def decodeScalar : JsonScalar → Except Error Bytes
  | .str s => deserializeBytes s
  | .int _ => .error .typeError

/-- The first element of an entry is the encoding, the others are its blocks. -/
def entryItem (blake2b : Blake2b) (i : ℕ) : List JsonScalar → Except Error Item
  | [] => .error .valueError
  | b64Encoding :: blocks => do
    let encoding ← decodeScalar b64Encoding
    return (i, encoding, blocks.map (hashBlockName blake2b))

/-- Entity ids are the positions in the file. -/
def streamJsonClksnblocks (blake2b : Blake2b) (f : List (List JsonScalar)) : Generator Item :=
  f.zipIdx.map fun p => entryItem blake2b p.2 p.1

def packItem (p : BitPacking) (item : Item) : Except Error Item := do
  let packed ← p.pack item.1 item.2.1
  return (item.1, packed, item.2.2)

/-- The first encoding decides on the encoding size. -/
def convertEncodingsFromBase64ToBinary (encodings : Generator Item) :
    Except Error (ℕ × Generator Item) := do
  let first ← orRaise encodings.head? .stopIteration
  let (_, encodingData, _) ← first
  let encodingSize := encodingData.length
  let bitPackingStruct ← binaryFormat encodingSize
  return (encodingSize, encodings.map fun item => item >>= packItem bitPackingStruct)

/-- `zip_longest` of `n` copies of one iterator: groups of `n`, the last filled up with `none`. -/
def grouper {α : Type} (n : ℕ) (l : List α) : List (List (Option α)) :=
  (List.range ((l.length + n - 1) / n)).map fun g => (List.range n).map fun i => l[g * n + i]?

/-- Three lists from a list of triples, without the filling. -/
def transpose (group : List (Option Item)) : List ℕ × List Bytes × List (List BlockName) :=
  let items := group.reduceOption
  (items.map (fun t => t.1), items.map (fun t => t.2.1), items.map (fun t => t.2.2))

/-- Insert one group. An element that raises is reached when its group is taken apart. -/
def storeGroup (dpId : DpId) (db : Database) (group : List (Option (Except Error Item))) :
    Except Error Database := do
  let group ← group.mapM fun item : Option (Except Error Item) =>
    item.elim (.ok none) (Except.map some)
  let (encodingIds, encodings, blocks) := transpose group
  ensure (blocks.length = encodings.length) .assertionError
  ensure (encodingIds.length = encodings.length) .assertionError
  db.insertEncodingsIntoBlocks dpId blocks encodingIds encodings

def storeEncodingsInDb (settings : Settings) (db : Database) (dpId : DpId)
    (encodings : Generator Item) (encodingSize : ℤ) : Except Error Database := do
  let n ← settings.estimateGroupSize encodingSize
  (grouper n.toNat encodings).foldlM (storeGroup dpId) db

/-- Give each encoding of a binary stream its number and the default block. A stream that
runs short is read as less than `size` bytes. -/
def includeEncodingIdInBinaryStream (stream : Bytes) (size count : ℤ) :
    Except Error (Generator Item) := do
  let binaryFormatter ← binaryFormat size
  return (List.range count.toNat).map fun entityId =>
    packItem binaryFormatter
      (entityId, (stream.drop (entityId * size.toNat)).take size.toNat, [DEFAULT_BLOCK_ID])

/-- Number at most `count` encodings of a JSON stream and give them the default block. -/
def includeEncodingIdInJsonStream (stream : Generator JsonScalar) (size count : ℤ) :
    Except Error (Generator Item) := do
  let binaryFormatter ← binaryFormat size
  return ((List.range count.toNat).zip stream).map fun p => do
    let encoding ← p.2
    let data ← decodeScalar encoding
    packItem binaryFormatter (p.1, data, [DEFAULT_BLOCK_ID])

end EntityService
