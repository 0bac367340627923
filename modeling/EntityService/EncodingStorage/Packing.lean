import EntityService.EncodingStorage.Pipeline

/-! What the generators of encodings yield: every encoding they get to, numbered and packed. -/
namespace EntityService
open Lib

def packedItem (size : ℕ) (item : Item) : Item :=
  (item.1, packUInt32 item.1 ++ fit size item.2.1, item.2.2)

theorem packItem_eq_ok {size : ℕ} {item packed : Item} :
    packItem ⟨size⟩ item = .ok packed ↔ item.1 < 2 ^ 32 ∧ packed = packedItem size item := by
  unfold packItem packedItem
  simp only [bind_eq_ok, BitPacking.pack_eq_ok, pure_eq_ok, Except.ok.injEq]
  constructor
  · rintro ⟨_, ⟨hid, rfl⟩, rfl⟩
    exact ⟨hid, rfl⟩
  · rintro ⟨hid, rfl⟩
    exact ⟨_, ⟨hid, rfl⟩, rfl⟩

@[simp] theorem packedItem_fst (size : ℕ) (item : Item) : (packedItem size item).1 = item.1 := rfl

@[simp] theorem packedItem_names (size : ℕ) (item : Item) :
    (packedItem size item).2.2 = item.2.2 := rfl

/-- The items of a list of encodings, numbered from zero. -/
def numbered (encodings : List Bytes) (names : ℕ → List BlockName) : List Item :=
  encodings.zipIdx.map fun p => (p.2, p.1, names p.2)

theorem mem_numbered {encodings : List Bytes} {names : ℕ → List BlockName} {item : Item} :
    item ∈ numbered encodings names ↔
      encodings[item.1]? = some item.2.1 ∧ item.2.2 = names item.1 := by
  unfold numbered
  simp only [List.mem_map, Prod.exists, List.mem_zipIdx_iff_getElem?]
  constructor
  · rintro ⟨e, i, h, rfl⟩
    exact ⟨h, rfl⟩
  · rintro ⟨h, he⟩
    exact ⟨item.2.1, item.1, h, Prod.ext rfl (Prod.ext rfl he.symm)⟩

theorem map_fst_numbered (encodings : List Bytes) (names : ℕ → List BlockName) :
    (numbered encodings names).map Prod.fst = List.range encodings.length := by
  unfold numbered
  rw [List.map_map]
  refine List.ext_getElem (by simp) fun i hi hi' => ?_
  simp

theorem flatMap_numbered (encodings : List Bytes) (names : ℕ → List BlockName) :
    (numbered encodings names).flatMap (fun t => t.2.2) =
      (List.range encodings.length).flatMap names := by
  rw [← map_fst_numbered encodings names, List.flatMap_map, List.flatMap_def, List.flatMap_def]
  refine congrArg List.flatten (List.map_congr_left fun item hitem => ?_)
  exact (mem_numbered.mp hitem).2

/-- The rows that a generator of numbered items yields: every encoding that is read is packed
under its number, which has to fit into four bytes. -/
def packedItems (size : ℕ) (encodings : List Bytes) (names : ℕ → List BlockName) : List Item :=
  (numbered encodings names).map (packedItem size)

theorem map_fst_packedItems (size : ℕ) (encodings : List Bytes) (names : ℕ → List BlockName) :
    (packedItems size encodings names).map Prod.fst = List.range encodings.length := by
  rw [← map_fst_numbered encodings names, packedItems, List.map_map]
  rfl

theorem flatMap_packedItems (size : ℕ) (encodings : List Bytes) (names : ℕ → List BlockName) :
    (packedItems size encodings names).flatMap (fun t => t.2.2) =
      (List.range encodings.length).flatMap names := by
  rw [← flatMap_numbered, packedItems, List.flatMap_map]
  rfl

theorem mem_packedItems {size : ℕ} {encodings : List Bytes} {names : ℕ → List BlockName}
    {item : Item} :
    item ∈ packedItems size encodings names ↔ ∃ e, encodings[item.1]? = some e ∧
      item = packedItem size (item.1, e, names item.1) := by
  unfold packedItems
  rw [List.mem_map]
  constructor
  · rintro ⟨raw, hraw, rfl⟩
    obtain ⟨he, hn⟩ := mem_numbered.mp hraw
    exact ⟨raw.2.1, he, by rw [packedItem_fst, ← hn]⟩
  · rintro ⟨e, he, hitem⟩
    exact ⟨_, mem_numbered.mpr ⟨he, rfl⟩, hitem.symm⟩

theorem lt_of_mem_packedItems {size : ℕ} {encodings : List Bytes} {names : ℕ → List BlockName}
    {item : Item} (h : item ∈ packedItems size encodings names) : item.1 < encodings.length := by
  obtain ⟨e, he, -⟩ := mem_packedItems.mp h
  exact (List.getElem?_eq_some_iff.mp he).1

theorem forall_zipIdx_lt_iff (encodings : List Bytes) (n : ℕ) :
    (∀ p ∈ encodings.zipIdx, p.2 < n) ↔ encodings.length ≤ n := by
  constructor
  · intro h
    by_contra hlt
    have hget : encodings[n]? = some encodings[n] := List.getElem?_eq_getElem (by omega)
    exact absurd (h (_, n) (List.mem_zipIdx_iff_getElem?.mpr hget)) (lt_irrefl n)
  · intro h p hp
    have hlt := (List.getElem?_eq_some_iff.mp (List.mem_zipIdx_iff_getElem?.mp hp)).1
    omega

/-- What is read from a stream, element by element, and packed under its number. -/
theorem mapM_pack_eq_ok {γ : Type} {size : ℕ} (read : γ → Except Error Bytes)
    (names : ℕ → List BlockName) {l : List γ} {items : List Item} :
    (l.zipIdx.mapM fun p => read p.1 >>= fun e => packItem ⟨size⟩ (p.2, e, names p.2)) = .ok items ↔
      ∃ encodings, l.mapM read = .ok encodings ∧ encodings.length ≤ 2 ^ 32 ∧
        items = packedItems size encodings names := by
  have hpack : ∀ i e item, packItem ⟨size⟩ (i, e, names i) = .ok item ↔
      i < 2 ^ 32 ∧ item = packedItem size (i, e, names i) := fun i e item => packItem_eq_ok
  rw [mapM_zipIdx_eq_ok hpack]
  refine exists_congr fun encodings => and_congr_right fun _ => and_congr ?_ ?_
  · exact forall_zipIdx_lt_iff encodings (2 ^ 32)
  · unfold packedItems numbered
    rw [List.map_map]
    rfl

/-- The pieces of a binary stream, the last of which may be short or empty. -/
def binaryPieces (data : Bytes) (size count : ℕ) : List Bytes :=
  (List.range count).map fun i => (data.drop (i * size)).take size

/-- The encodings that are read from an object: the declared number of pieces of a binary one,
and at most the declared number of elements of a JSON one. -/
def objectEncodings (json : Bool) (clks : Generator JsonScalar) (data : Bytes) (size count : ℕ) :
    Except Error (List Bytes) :=
  if json then (clks.take count).mapM fun encoding => encoding >>= decodeScalar
  else .ok (binaryPieces data size count)

theorem length_objectEncodings {json : Bool} {clks : Generator JsonScalar} {data : Bytes}
    {size count : ℕ} {encodings : List Bytes}
    (h : objectEncodings json clks data size count = .ok encodings) :
    encodings.length = if json then min count clks.length else count := by
  unfold objectEncodings at h
  split_ifs at h with hjson
  · have hlen := (mapM_eq_ok.mp h).length_eq
    rw [List.length_take] at hlen
    rw [if_pos hjson, hlen]
  · cases h
    rw [if_neg hjson]
    simp [binaryPieces]

theorem length_objectEncodings_le {json : Bool} {clks : Generator JsonScalar} {data : Bytes}
    {size count : ℕ} {encodings : List Bytes}
    (h : objectEncodings json clks data size count = .ok encodings) : encodings.length ≤ count := by
  rw [length_objectEncodings h]
  split_ifs
  · exact min_le_left _ _
  · exact le_rfl

section Reading
variable {h : ℕ → Bytes → Except Error Item} {c : ℕ → Bytes → Prop} {g : ℕ → Bytes → Item}
  (hh : ∀ i e item, h i e = .ok item ↔ c i e ∧ item = g i e)
include hh

/-- A JSON stream is read up to the declared number of encodings. -/
theorem mapM_streamItems_eq_ok {stream : Generator JsonScalar} {count : ℕ} {items : List Item} :
    (((List.range count).zip stream).map fun p => do
      let encoding ← p.2
      let data ← decodeScalar encoding
      h p.1 data).mapM id = .ok items ↔
    ∃ encodings, (stream.take count).mapM (fun encoding => encoding >>= decodeScalar) =
        .ok encodings ∧
      (∀ p ∈ encodings.zipIdx, c p.2 p.1) ∧ items = encodings.zipIdx.map fun p => g p.2 p.1 := by
  rw [← mapM_zipIdx_eq_ok hh, zip_range_eq_zipIdx, List.map_map, List.mapM_map]
  have hassoc : ∀ p ∈ (stream.take count).zipIdx, (id ∘ (fun p : ℕ × Except Error JsonScalar => do
      let encoding ← p.2
      let data ← decodeScalar encoding
      h p.1 data) ∘ Prod.swap) p = (p.1 >>= decodeScalar) >>= h p.2 :=
    fun p _ => (bind_assoc _ _ _).symm
  rw [mapM_congr_left hassoc]

/-- A binary stream is cut into the declared number of encodings, whatever its length. -/
theorem mapM_pieceItems_eq_ok {data : Bytes} {size count : ℕ} {items : List Item} :
    ((List.range count).map fun i => h i ((data.drop (i * size)).take size)).mapM id = .ok items ↔
      (∀ p ∈ (binaryPieces data size count).zipIdx, c p.2 p.1) ∧
        items = (binaryPieces data size count).zipIdx.map fun p => g p.2 p.1 := by
  rw [map_range_eq_zipIdx (fun i => (data.drop (i * size)).take size) h, List.mapM_map]
  exact mapM_eq_ok_map fun (p : Bytes × ℕ) => hh p.2 p.1

end Reading

theorem packItem_default_eq_ok (size i : ℕ) (e : Bytes) (item : Item) :
    packItem ⟨size⟩ (i, e, [DEFAULT_BLOCK_ID]) = .ok item ↔
      i < 2 ^ 32 ∧ item = packedItem size (i, e, [DEFAULT_BLOCK_ID]) := packItem_eq_ok

theorem packedItems_eq (size : ℕ) (encodings : List Bytes) (names : ℕ → List BlockName) :
    packedItems size encodings names =
      encodings.zipIdx.map fun p => packedItem size (p.2, p.1, names p.2) := by
  unfold packedItems numbered
  rw [List.map_map]
  rfl

/-- The items of an object without blocks are the encodings that are read from it. -/
theorem convertedStream_eq_ok {json : Bool} {clks : Generator JsonScalar} {data : Bytes}
    {size count : ℤ} {gen : Generator Item}
    (h : (if json then includeEncodingIdInJsonStream clks size count
      else includeEncodingIdInBinaryStream data size count) = .ok gen) :
    ∃ s : ℕ, size = s ∧ ∀ items, gen.mapM id = .ok items → ∃ encodings,
      objectEncodings json clks data s count.toNat = .ok encodings ∧ encodings.length ≤ 2 ^ 32 ∧
        items = packedItems s encodings fun _ => [DEFAULT_BLOCK_ID] := by
  cases json with
  | true =>
    obtain ⟨⟨s⟩, hs, h⟩ := bind_eq_ok.mp h
    obtain rfl : size = s := binaryFormat_eq_ok.mp hs
    refine ⟨s, rfl, fun items hm => ?_⟩
    cases h
    rw [Int.toNat_natCast] at hm
    obtain ⟨encodings, hread, hids, rfl⟩ :=
      (mapM_streamItems_eq_ok (packItem_default_eq_ok s)).mp hm
    exact ⟨encodings, hread, (forall_zipIdx_lt_iff encodings _).mp hids,
      (packedItems_eq s encodings fun _ => [DEFAULT_BLOCK_ID]).symm⟩
  | false =>
    obtain ⟨⟨s⟩, hs, h⟩ := bind_eq_ok.mp h
    obtain rfl : size = s := binaryFormat_eq_ok.mp hs
    refine ⟨s, rfl, fun items hm => ?_⟩
    cases h
    rw [Int.toNat_natCast] at hm
    obtain ⟨hids, rfl⟩ := (mapM_pieceItems_eq_ok (packItem_default_eq_ok s)).mp hm
    exact ⟨_, rfl, (forall_zipIdx_lt_iff _ _).mp hids,
      (packedItems_eq s _ fun _ => [DEFAULT_BLOCK_ID]).symm⟩

/-- An object without blocks from which all encodings can be read gives their items. -/
theorem convertedStream_of_objectEncodings {json : Bool} {clks : Generator JsonScalar}
    {data : Bytes} {size : ℕ} {count : ℤ} {encodings : List Bytes}
    (h : objectEncodings json clks data size count.toNat = .ok encodings)
    (hlen : encodings.length ≤ 2 ^ 32) :
    ∃ gen, (if json then includeEncodingIdInJsonStream clks size count
      else includeEncodingIdInBinaryStream data size count) = .ok gen ∧
      gen.mapM id = .ok (packedItems size encodings fun _ => [DEFAULT_BLOCK_ID]) := by
  have hids := (forall_zipIdx_lt_iff encodings (2 ^ 32)).mpr hlen
  have hitems := packedItems_eq size encodings fun _ => [DEFAULT_BLOCK_ID]
  cases json with
  | true =>
    unfold includeEncodingIdInJsonStream
    rw [if_pos rfl, binaryFormat_natCast, ok_bind]
    exact ⟨_, rfl, (mapM_streamItems_eq_ok (packItem_default_eq_ok size)).mpr
      ⟨encodings, h, hids, hitems⟩⟩
  | false =>
    cases h
    unfold includeEncodingIdInBinaryStream
    rw [if_neg (by decide), binaryFormat_natCast, ok_bind]
    exact ⟨_, rfl, (mapM_pieceItems_eq_ok (packItem_default_eq_ok size)).mpr ⟨hids, hitems⟩⟩

def readEntry : List JsonScalar → Except Error Bytes
  | [] => .error .valueError
  | b64Encoding :: _ => decodeScalar b64Encoding

/-- The hashed names of the blocks of an entry. -/
def entryNames (blake2b : Blake2b) (f : List (List JsonScalar)) (i : ℕ) : List BlockName :=
  (((f[i]?).getD []).drop 1).map (hashBlockName blake2b)

theorem mapM_packedStream_eq_ok {blake2b : Blake2b} {f : List (List JsonScalar)} {size : ℕ}
    {items : List Item} :
    ((streamJsonClksnblocks blake2b f).map fun item => item >>= packItem ⟨size⟩).mapM id =
        .ok items ↔
      ∃ encodings, f.mapM readEntry = .ok encodings ∧ encodings.length ≤ 2 ^ 32 ∧
        items = packedItems size encodings (entryNames blake2b f) := by
  have hstream : ∀ p ∈ f.zipIdx, (id ∘ ((fun item => item >>= packItem ⟨size⟩) ∘
      fun p : List JsonScalar × ℕ => entryItem blake2b p.2 p.1)) p =
      readEntry p.1 >>= fun e => packItem ⟨size⟩ (p.2, e, entryNames blake2b f p.2) := by
    rintro ⟨entry, n⟩ hp
    have hget := List.mem_zipIdx_iff_getElem?.mp hp
    cases entry with
    | nil => rfl
    | cons b64Encoding blocks =>
      simp only [entryNames, hget, Function.comp_apply, id, readEntry, entryItem, bind_assoc]
      simp
  unfold streamJsonClksnblocks
  rw [List.map_map, List.mapM_map, mapM_congr_left hstream]
  exact mapM_pack_eq_ok readEntry _

/-- Reading an inline upload fails on its first entry, or gives a stream in the size of the
first encoding. -/
theorem convertEncodingsFromBase64ToBinary_eq_ok {blake2b : Blake2b} {f : List (List JsonScalar)}
    {size : ℕ} {gen : Generator Item} :
    convertEncodingsFromBase64ToBinary (streamJsonClksnblocks blake2b f) = .ok (size, gen) ↔
      (∃ entry e, f.head? = some entry ∧ readEntry entry = .ok e ∧ e.length = size) ∧
        gen = (streamJsonClksnblocks blake2b f).map fun item => item >>= packItem ⟨size⟩ := by
  cases f with
  | nil =>
    unfold convertEncodingsFromBase64ToBinary streamJsonClksnblocks
    simp [orRaise]
  | cons entry f =>
    have hentry : ∀ e : Bytes, (∃ names, entryItem blake2b 0 entry = .ok (0, e, names)) ↔
        readEntry entry = .ok e := by
      intro e
      cases entry with
      | nil => simp [entryItem, readEntry]
      | cons b64Encoding blocks => simp [entryItem, readEntry, bind_eq_ok]
    have hid : ∀ i e names, entryItem blake2b 0 entry = .ok (i, e, names) → i = 0 := by
      intro i e names h
      cases entry with
      | nil => cases h
      | cons b64Encoding blocks =>
        obtain ⟨_, -, h1⟩ := bind_eq_ok.mp h
        cases h1
        rfl
    have hhead : (streamJsonClksnblocks blake2b (entry :: f)).head? =
        some (entryItem blake2b 0 entry) := by
      unfold streamJsonClksnblocks
      rw [List.zipIdx_cons, List.map_cons, List.head?_cons]
    unfold convertEncodingsFromBase64ToBinary
    simp only [hhead, bind_eq_ok, orRaise_eq_ok, binaryFormat_natCast, ok_bind, pure_eq_ok,
      Except.ok.injEq, Prod.mk.injEq, List.head?_cons, Option.some.injEq]
    constructor
    · rintro ⟨_, rfl, ⟨i, e, names⟩, hitem, rfl, rfl⟩
      obtain rfl := hid i e names hitem
      exact ⟨⟨entry, e, rfl, (hentry e).mp ⟨names, hitem⟩, rfl⟩, rfl⟩
    · rintro ⟨⟨_, e, rfl, he, rfl⟩, rfl⟩
      obtain ⟨names, hitem⟩ := (hentry e).mpr he
      exact ⟨_, rfl, _, hitem, rfl, rfl⟩

/-- All encodings of an inline upload can be read; the first decides on the size. -/
structure ReadEntries (entries : List (List JsonScalar)) (size : ℕ) (encodings : List Bytes) :
    Prop where
  read : entries.mapM readEntry = .ok encodings
  size_eq : encodings.head?.map List.length = some size
  length_le : encodings.length ≤ 2 ^ 32

namespace ReadEntries
variable {entries : List (List JsonScalar)} {size : ℕ} {encodings : List Bytes}

theorem length_eq (h : ReadEntries entries size encodings) : encodings.length = entries.length :=
  (mapM_eq_ok.mp h.read).length_eq.symm

theorem unique {size' : ℕ} {encodings' : List Bytes} (h : ReadEntries entries size encodings)
    (h' : ReadEntries entries size' encodings') : size = size' ∧ encodings = encodings' := by
  obtain rfl := Except.ok.inj (h.read.symm.trans h'.read)
  exact ⟨Option.some.inj (h.size_eq.symm.trans h'.size_eq), rfl⟩

end ReadEntries

/-- The items of an inline upload are its entries, packed in the size of the first. -/
theorem convertEncodings_iff (blake2b : Blake2b) {entries : List (List JsonScalar)} {size : ℕ}
    {items : List Item} :
    (∃ gen, convertEncodingsFromBase64ToBinary (streamJsonClksnblocks blake2b entries) =
        .ok (size, gen) ∧ gen.mapM id = .ok items) ↔
      ∃ encodings, ReadEntries entries size encodings ∧
        items = packedItems size encodings (entryNames blake2b entries) := by
  simp only [convertEncodingsFromBase64ToBinary_eq_ok, and_assoc, exists_eq_left,
    exists_and_left, mapM_packedStream_eq_ok]
  constructor
  · rintro ⟨⟨entry, hhead, e, he, hsize⟩, encodings, hread, hlen, rfl⟩
    refine ⟨encodings, ⟨hread, ?_, hlen⟩, rfl⟩
    rw [mapM_eq_ok] at hread
    cases hread with
    | nil => cases hhead
    | cons hentry _ =>
      cases hhead
      cases hentry.symm.trans he
      exact congrArg some hsize
  · rintro ⟨encodings, hread, rfl⟩
    refine ⟨?_, encodings, hread.read, hread.length_le, rfl⟩
    obtain ⟨hmap, hsize, -⟩ := hread
    rw [mapM_eq_ok] at hmap
    cases hmap with
    | nil => cases hsize
    | @cons entry e _ _ hentry _ => exact ⟨entry, rfl, e, hentry, Option.some.inj hsize⟩

end EntityService
