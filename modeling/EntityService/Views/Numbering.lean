import EntityService.Views.Uploaded

/-! The numbers of records that are uploaded as separate encodings and blocks. The blocks name
encodings by their index, but the records are stored under the positions of these names. -/
namespace EntityService
open Lib

namespace Database

def recordsOf (db : Database) (dpId : DpId) (i : ℕ) : List Bytes :=
  (db.encodings.filter fun r => r.dp = dpId ∧ r.encodingId = (dpId <<< 32) + i).map
    EncodingRow.encoding

/-- The encoding with a number belongs to the block with a name. -/
def InBlock (db : Database) (dpId : DpId) (i : ℕ) (name : BlockName) : Prop :=
  ∃ r ∈ db.encodingblocks, r.dp = dpId ∧ r.entityId = i ∧
    (db.blockLookup dpId).get? name = some r.blockId

/-- Two datasets have the same encodings under the same numbers and in the same blocks. -/
def SameStored (db : Database) (dpId : DpId) (db' : Database) (dpId' : DpId) : Prop :=
  ∀ i, db.recordsOf dpId i = db'.recordsOf dpId' i ∧
    ∀ name, db.InBlock dpId i name ↔ db'.InBlock dpId' i name

namespace Ingested
variable {db : Database} {dpId : DpId} {first : BlockId} {blocks : List (BlockName × ℤ)}
  {size : ℕ} {encodings : List Bytes} {names : ℕ → List BlockName}
  (h : db.Ingested dpId first blocks (packedItems size encodings names))
include h

theorem recordsOf_eq (i : ℕ) : db.recordsOf dpId i =
    (encodings[i]?.map fun e => packUInt32 i ++ fit size e).toList := by
  have hrows : db.encodings.filter (fun r => r.dp = dpId ∧ r.encodingId = (dpId <<< 32) + i) =
      ((packedItems size encodings names).filter fun item => item.1 = i).map
        (encodingRow dpId) := by
    have hfilter : db.encodings.filter
        (fun r => r.dp = dpId ∧ r.encodingId = (dpId <<< 32) + i) =
          (db.encodings.filter (fun r => r.dp = dpId)).filter
            (fun r => r.encodingId = (dpId <<< 32) + i) := by
      rw [List.filter_filter]
      simp only [Bool.decide_and, Bool.and_comm]
    rw [hfilter, h.encodings, List.filter_map]
    refine congrArg (List.map _) (List.filter_congr fun item _ => ?_)
    simp [encodingRow]
  unfold Database.recordsOf
  rw [hrows]
  cases hget : encodings[i]? with
  | none =>
    have hnil : (packedItems size encodings names).filter (fun item => item.1 = i) = [] := by
      refine List.filter_eq_nil_iff.mpr fun item hitem => ?_
      obtain ⟨e, he, -⟩ := mem_packedItems.mp hitem
      simp only [decide_eq_true_eq]
      rintro rfl
      rw [hget] at he
      cases he
    rw [hnil]
    rfl
  | some e =>
    have hmem : packedItem size (i, e, names i) ∈ packedItems size encodings names :=
      mem_packedItems.mpr ⟨e, hget, rfl⟩
    have hone := filter_eq_singleton h.nodup hmem
    rw [packedItem_fst] at hone
    rw [hone]
    rfl

theorem inBlock_iff {i : ℕ} {name : BlockName} :
    db.InBlock dpId i name ↔ i < encodings.length ∧ name ∈ names i := by
  have hrow : ∀ r, r ∈ db.encodingblocks ∧ r.dp = dpId ↔
      r ∈ (packedItems size encodings names).flatMap (blockRows (db.blockLookup dpId) dpId) := by
    intro r
    rw [← h.encodingblocks, List.mem_filter, decide_eq_true_eq]
  constructor
  · rintro ⟨r, hr, hdp, rfl, hid⟩
    obtain ⟨item, hitem, hr⟩ := List.mem_flatMap.mp ((hrow r).mp ⟨hr, hdp⟩)
    obtain ⟨name', hname', rfl⟩ := List.mem_map.mp hr
    obtain ⟨id, hid'⟩ := Dict.mem_keys_iff.mp (h.known item hitem name' hname')
    obtain ⟨e, he, hpacked⟩ := mem_packedItems.mp hitem
    rw [hid', Option.getD_some] at hid
    obtain rfl := h.blockLookup_inj hid hid'
    rw [hpacked, packedItem_names] at hname'
    exact ⟨(List.getElem?_eq_some_iff.mp he).1, hname'⟩
  · rintro ⟨hi, hname⟩
    have hitem : packedItem size (i, encodings[i], names i) ∈ packedItems size encodings names :=
      mem_packedItems.mpr ⟨encodings[i], List.getElem?_eq_getElem hi, rfl⟩
    obtain ⟨id, hid⟩ := Dict.mem_keys_iff.mp (h.known _ hitem name hname)
    obtain ⟨hr, hdp⟩ := (hrow ⟨dpId, i, (dpId <<< 32) + i, id⟩).mpr (List.mem_flatMap.mpr
      ⟨_, hitem, List.mem_map.mpr ⟨name, hname, by rw [hid]; rfl⟩⟩)
    exact ⟨_, hr, hdp, rfl, hid⟩

end Ingested
end Database

namespace Views
open Database Tasks

theorem toNat_of_isDigit {c : Char} (h : c.isDigit = true) : 48 ≤ c.toNat ∧ c.toNat ≤ 57 := by
  simpa [Char.isDigit, UInt32.le_iff_toNat_le] using h

theorem decimalDigit_of_isDigit {c : Char} (h : c.isDigit = true) :
    decimalDigit c = some (c.toNat - 48) := by
  have hbounds := toNat_of_isDigit h
  have hzero : 48 ≤ c.toNat ∧ c.toNat < 48 + 10 := by omega
  have hfind : (decimalZeros.find? fun z => z ≤ c.toNat ∧ c.toNat < z + 10) = some 48 :=
    List.find?_cons_of_pos (decide_eq_true hzero)
  rw [decimalDigit, hfind, Option.map_some]

theorem intSpace_of_isDigit {c : Char} (h : c.isDigit = true) : intSpace c = false := by
  have hbounds := toNat_of_isDigit h
  simp only [intSpace, List.mem_cons, List.not_mem_nil, or_false, decide_eq_false_iff_not]
  omega

theorem parseDigits_of_isDigit {cs : List Char} (hdigits : ∀ c ∈ cs, c.isDigit = true)
    (afterDigit : Bool) (value : ℕ) (hne : afterDigit = true ∨ cs ≠ []) :
    parseDigits afterDigit value cs = some (Nat.ofDigitChars 10 cs value) := by
  induction cs generalizing afterDigit value with
  | nil =>
    have hafter : afterDigit = true := hne.resolve_right fun h => h rfl
    subst hafter
    rfl
  | cons c cs ih =>
    obtain ⟨hc, hcs⟩ := List.forall_mem_cons.mp hdigits
    rw [parseDigits, decimalDigit_of_isDigit hc]
    dsimp only
    rw [ih hcs true _ (.inl rfl), Nat.ofDigitChars_cons]
    rfl

theorem stripIntSpace_of_isDigit {cs : List Char} (h : ∀ c ∈ cs, c.isDigit = true) :
    stripIntSpace cs = cs := by
  apply trim_eq_self
  · exact fun c hc => intSpace_of_isDigit (h c (List.mem_of_mem_head? hc))
  · exact fun c hc => intSpace_of_isDigit (h c (List.mem_of_getLast? hc))

/-- The decimal text of a number is read as the number, if it is not too long. -/
theorem parseInt_decimal {n : ℕ} {i : ℤ} (h : parseInt (decimal n) = .ok i) : i = n := by
  have hdigits : ∀ c ∈ Nat.toDigits 10 n, c.isDigit = true :=
    fun c hc => Nat.isDigit_of_mem_toDigits (by decide) (by decide) hc
  have hparse : parseDigits false 0 (Nat.toDigits 10 n) = some n := by
    rw [parseDigits_of_isDigit hdigits false 0 (.inr Nat.toDigits_ne_nil),
      Nat.ofDigitChars_ten_toDigits]
  unfold parseInt at h
  rw [decimal_natCast, stripIntSpace_of_isDigit hdigits] at h
  cases hcs : Nat.toDigits 10 n with
  | nil => exact absurd hcs Nat.toDigits_ne_nil
  | cons c cs =>
    rw [hcs] at hdigits hparse h
    have hc := hdigits c List.mem_cons_self
    split at h
    case h_1 heq =>
      obtain rfl := (List.cons.inj heq).1
      exact absurd hc (by decide)
    case h_2 heq =>
      obtain rfl := (List.cons.inj heq).1
      exact absurd hc (by decide)
    case h_3 =>
      obtain ⟨m, hm, he⟩ := bind_eq_ok.mp h
      cases he
      obtain ⟨_, -, hvalue⟩ := bind_eq_ok.mp hm
      rw [hparse] at hvalue
      cases hvalue
      rfl

def encodingAt (encodings : List JsonScalar) (i : ℕ) : Except Error Bytes := do
  decodeScalar (← orRaise encodings[i]? .indexError)

/-- Each stored record has the encoding and the blocks that were uploaded for its number. -/
def NumberedAsUploaded (blake2b : Blake2b) (db : Database) (dpId : DpId)
    (encodings : List JsonScalar) (blocks : Dict (List Char) (List JsonScalar)) : Prop :=
  ∀ i, db.recordsOf dpId i ≠ [] → ∃ e ids, encodingAt encodings i = .ok e ∧
    blocks.get? (decimal i) = some ids ∧ db.recordsOf dpId i = [packUInt32 i ++ e] ∧
      ∀ name, db.InBlock dpId i name ↔ name ∈ ids.map (hashBlockName blake2b)

/-- The size of the encoding that the mapping of the blocks names first. -/
def FirstSize (encodings : List JsonScalar) (blocks : Dict (List Char) (List JsonScalar))
    (size : ℕ) : Prop :=
  ∃ (i : ℕ) (ids : List JsonScalar) (e : Bytes), blocks.entries[0]? = some (decimal i, ids) ∧
    encodingAt encodings i = .ok e ∧ e.length = size

/-- What the mapping of the blocks names at each position, cut or padded to the size of the first
encoding, is what belongs to the number of the position. -/
def ListedInOrder (blake2b : Blake2b) (encodings : List JsonScalar)
    (blocks : Dict (List Char) (List JsonScalar)) (stored : Bytes → Bytes) : Prop :=
  ∀ size, FirstSize encodings blocks size → ∀ (j i : ℕ) ids,
    blocks.entries[j]? = some (decimal i, ids) →
    ∃ e e' ids', encodingAt encodings i = .ok e ∧ encodingAt encodings j = .ok e' ∧
      fit size e = stored e' ∧ blocks.get? (decimal j) = some ids' ∧
        ∀ name, name ∈ ids.map (hashBlockName blake2b) ↔ name ∈ ids'.map (hashBlockName blake2b)

/-- The encodings and the blocks lie in two files of the object store. -/
structure SuppliedAsFiles (w : World) (encodingFile blocksFile : ExternalFile)
    (encodings : List JsonScalar) (blocks : Dict (List Char) (List JsonScalar)) (size : ℕ) :
    Prop where
  blocksObject : ∃ object, w.objects.get? blocksFile = some object ∧
    object.blocks.mapM id = .ok blocks.entries
  encodingObject : ∃ object decoded, w.objects.get? encodingFile = some object ∧
    object.hashSize = .ok (size : ℤ) ∧ encodings.mapM decodeScalar = .ok decoded ∧
      objectEncodings (isJson encodingFile) object.clks object.data size encodings.length =
        .ok decoded

section Upload
variable {settings : Settings} {projectId : ProjectId} {dpId : DpId} {token : Token}
  {w w1 w2 : World} {clkJson : ClkJson} {usesBlocking : Bool} {job : Job} {b : Bool}
  {encodings : List JsonScalar} {blocks : Dict (List Char) (List JsonScalar)}

theorem convertEncodingUpload_ok {entries : List (List JsonScalar)}
    (h : convertEncodingUploadToClknblock encodings (some (.map blocks)) = .ok entries) {j i : ℕ}
    {ids : List JsonScalar} (hj : blocks.entries[j]? = some (decimal i, ids)) :
    ∃ scalar, encodings[i]? = some scalar ∧ entries[j]? = some (scalar :: ids) := by
  obtain ⟨entry, hentry, hconvert⟩ := mapM_getElem?_of_mem h hj
  obtain ⟨index, hint, hconvert⟩ := bind_eq_ok.mp hconvert
  obtain rfl := parseInt_decimal hint
  obtain ⟨scalar, hindex, he⟩ := bind_eq_ok.mp hconvert
  cases he
  refine ⟨scalar, ?_, hentry⟩
  unfold pyIndex at hindex
  have hneg : ¬ (i : ℤ) < 0 := by omega
  simpa [hneg] using hindex

/-- The dataset that an accepted upload leaves: the record at a position of the mapping. -/
structure StoredInOrder (blake2b : Blake2b) (db : Database) (dpId : DpId)
    (encodings : List JsonScalar) (blocks : Dict (List Char) (List JsonScalar)) (size : ℕ)
    (stored : List Bytes) (names : ℕ → List BlockName) : Prop where
  ingested : ∃ first declared, db.Ingested dpId first declared (packedItems size stored names)
  length_eq : stored.length = blocks.entries.length
  size_eq : FirstSize encodings blocks size
  encoding : ∀ (j i : ℕ) ids, blocks.entries[j]? = some (decimal i, ids) →
    ∃ e, encodingAt encodings i = .ok e ∧ stored[j]? = some e
  names_eq : ∀ (j i : ℕ) ids, blocks.entries[j]? = some (decimal i, ids) →
    names j = ids.map (hashBlockName blake2b)

theorem storedInOrder_of_ok (hkeys : ∀ k ∈ blocks.keys, ∃ i < encodings.length, k = decimal i)
    (hvacant : w.db.Vacant dpId) (hproject : w.db.checkProjectExists projectId = true)
    (hencodings : clkJson.encodings = some (.array encodings))
    (hblocks : clkJson.blocks = some (.map blocks))
    (hview : handleEncodingUploadJson settings projectId dpId clkJson token usesBlocking w =
      (w1, .ok job))
    (htask : handleRawUpload settings projectId dpId token w1 = (w2, .ok b)) :
    ∃ size stored names, StoredInOrder settings.blake2b w2.db dpId encodings blocks size stored
      names := by
  have habort := handleEncodingUploadJson_inconsistent hview
  have hinline : clkJson.externalEncodings = none := by
    cases hexternal : clkJson.externalEncodings with
    | none => rfl
    | some files =>
      -- a list of encodings that contains the text `file` is taken for an object with a file
      rw [handleEncodingUploadJson_of_ok habort, hexternal, hblocks] at hview
      obtain rfl : files = .array encodings := by
        rw [ClkJson.externalEncodings, hencodings, Option.filter_eq_some_iff] at hexternal
        exact (Option.some.inj hexternal.1).symm
      obtain ⟨hupload, -⟩ := Action.lift_ok hview
      cases hupload
  obtain ⟨-, entries, hentries, ⟨hfresh, hcountable⟩, -, rfl⟩ :=
    (handleEncodingUploadJson_inline hinline).mp hview
  have hconvert : convertEncodingUploadToClknblock encodings (some (.map blocks)) =
      .ok entries := by
    unfold inlineEntries at hentries
    rw [hencodings, hblocks] at hentries
    obtain ⟨entries', hentries', h⟩ := bind_eq_ok.mp hentries
    obtain ⟨-, -, h⟩ := bind_eq_ok.mp h
    cases h
    exact hentries'
  obtain ⟨size, stored, hread, -, hcompleted⟩ := handleRawUpload_ok htask hproject hfresh hcountable
  have hlength : entries.length = blocks.entries.length :=
    (mapM_eq_ok.mp hconvert).length_eq.symm
  have hencoding : ∀ (j i : ℕ) ids, blocks.entries[j]? = some (decimal i, ids) →
      ∃ e, encodingAt encodings i = .ok e ∧ stored[j]? = some e := by
    intro j i ids hj
    obtain ⟨scalar, hscalar, hentry⟩ := convertEncodingUpload_ok hconvert hj
    obtain ⟨e, he, hdecode⟩ := mapM_getElem?_of_mem hread.read hentry
    refine ⟨e, ?_, he⟩
    unfold encodingAt
    rw [hscalar]
    exact hdecode
  refine ⟨size, stored, _, ⟨_, _, hcompleted.ingested hvacant⟩, hread.length_eq.trans hlength, ?_,
    hencoding, fun j i ids hj => ?_⟩
  · have hsize := hread.size_eq
    obtain ⟨e, hhead, rfl⟩ := Option.map_eq_some_iff.mp hsize
    rw [List.head?_eq_getElem?] at hhead
    obtain ⟨hpos, -⟩ := List.getElem?_eq_some_iff.mp hhead
    rw [hread.length_eq, hlength] at hpos
    obtain ⟨p, hfirst⟩ : ∃ p, blocks.entries[0]? = some p := ⟨_, List.getElem?_eq_getElem hpos⟩
    obtain ⟨k, ids⟩ := p
    obtain ⟨i, -, rfl⟩ := hkeys k (List.mem_map_of_mem (List.mem_of_getElem? hfirst))
    obtain ⟨e', he', hstored⟩ := hencoding 0 i ids hfirst
    obtain rfl := Option.some.inj (hhead.symm.trans hstored)
    exact ⟨i, ids, _, hfirst, he', rfl⟩
  · obtain ⟨scalar, -, hentry⟩ := convertEncodingUpload_ok hconvert hj
    simp [entryNames, hentry]

theorem StoredInOrder.recordsOf_eq {db : Database} {size : ℕ} {stored : List Bytes}
    {names : ℕ → List BlockName} {blake2b : Blake2b}
    (h : StoredInOrder blake2b db dpId encodings blocks size stored names) {j i : ℕ}
    {ids : List JsonScalar} (hj : blocks.entries[j]? = some (decimal i, ids)) :
    ∃ e, encodingAt encodings i = .ok e ∧ db.recordsOf dpId j = [packUInt32 j ++ fit size e] ∧
      ∀ name, db.InBlock dpId j name ↔ name ∈ ids.map (hashBlockName blake2b) := by
  obtain ⟨first, declared, hingested⟩ := h.ingested
  obtain ⟨e, he, hstored⟩ := h.encoding j i ids hj
  refine ⟨e, he, ?_, fun name => ?_⟩
  · rw [hingested.recordsOf_eq, hstored]
    rfl
  · rw [hingested.inBlock_iff, h.names_eq j i ids hj]
    exact and_iff_right (List.getElem?_eq_some_iff.mp hstored).1

theorem FirstSize.unique {size size' : ℕ} (h : FirstSize encodings blocks size)
    (h' : FirstSize encodings blocks size') : size = size' := by
  obtain ⟨i, ids, e, hfirst, he, rfl⟩ := h
  obtain ⟨i', ids', e', hfirst', he', rfl⟩ := h'
  obtain ⟨hi, -⟩ := Prod.mk.inj (Option.some.inj (hfirst.symm.trans hfirst'))
  obtain rfl := decimal_natCast_injective hi
  rw [Except.ok.inj (he.symm.trans he')]

/-- Records are stored under the numbers for which they were uploaded exactly when what the mapping
names at each position belongs to the number of the position. -/
theorem numbered_iff {db : Database} {size : ℕ} {stored : List Bytes}
    {names : ℕ → List BlockName} {blake2b : Blake2b}
    (hkeys : ∀ k ∈ blocks.keys, ∃ i < encodings.length, k = decimal i)
    (h : StoredInOrder blake2b db dpId encodings blocks size stored names) :
    NumberedAsUploaded blake2b db dpId encodings blocks ↔
      ListedInOrder blake2b encodings blocks id := by
  constructor
  · intro hnumbered size' hsize j i ids hj
    obtain rfl := hsize.unique h.size_eq
    obtain ⟨e, he, hrecord, hnames⟩ := h.recordsOf_eq hj
    obtain ⟨e', ids', he', hids', hrecord', hnames'⟩ := hnumbered j (by simp [hrecord])
    refine ⟨e, e', ids', he, he', ?_, hids', fun name => (hnames name).symm.trans (hnames' name)⟩
    rw [hrecord] at hrecord'
    exact List.append_cancel_left (List.singleton_inj.mp hrecord')
  · intro hlisted j hrecord
    obtain ⟨first, declared, hingested⟩ := h.ingested
    obtain ⟨p, hj⟩ : ∃ p, blocks.entries[j]? = some p := by
      refine Option.isSome_iff_exists.mp ?_
      rw [hingested.recordsOf_eq] at hrecord
      by_contra hnone
      have hlen : blocks.entries.length ≤ j := by simpa using hnone
      rw [← h.length_eq] at hlen
      rw [List.getElem?_eq_none hlen] at hrecord
      exact hrecord rfl
    obtain ⟨k, ids⟩ := p
    obtain ⟨i, -, rfl⟩ := hkeys k (List.mem_map_of_mem (List.mem_of_getElem? hj))
    obtain ⟨e, he, hrecord, hnames⟩ := h.recordsOf_eq hj
    obtain ⟨e₁, e', ids', he₁, he', hfit, hids', hnames'⟩ := hlisted size h.size_eq j i ids hj
    obtain rfl := Except.ok.inj (he.symm.trans he₁)
    exact ⟨e', ids', he', hids', by rw [hrecord, hfit]; rfl,
      fun name => (hnames name).trans (hnames' name)⟩

/-- A mapping that covers every index has as many names as there are encodings. -/
theorem length_keys (hkeys : ∀ k ∈ blocks.keys, ∃ i < encodings.length, k = decimal i)
    (hcovers : ∀ i < encodings.length, decimal i ∈ blocks.keys) :
    blocks.keys.length = encodings.length := by
  have hnodup : ((List.range encodings.length).map fun i : ℕ => decimal i).Nodup :=
    List.nodup_range.map decimal_natCast_injective
  have hperm : blocks.keys.Perm ((List.range encodings.length).map fun i : ℕ => decimal i) := by
    refine (List.perm_ext_iff_of_nodup blocks.nodup_keys hnodup).mpr fun k => ?_
    simp only [List.mem_map, List.mem_range]
    constructor
    · intro hk
      obtain ⟨i, hi, rfl⟩ := hkeys k hk
      exact ⟨i, hi, rfl⟩
    · rintro ⟨i, hi, rfl⟩
      exact hcovers i hi
  simpa using hperm.length_eq

theorem map_fst_hashedBlocks (settings : Settings)
    (blocks : Dict (List Char) (List JsonScalar)) :
    (hashedBlocks settings blocks.entries).map Prod.fst = blocks.keys := by
  unfold hashedBlocks Dict.keys
  rw [List.map_map]
  rfl

theorem length_keys_hashedBlocks (settings : Settings)
    (blocks : Dict (List Char) (List JsonScalar)) :
    (Dict.ofList (hashedBlocks settings blocks.entries)).keys.length = blocks.keys.length := by
  refine List.Perm.length_eq ((List.perm_ext_iff_of_nodup (Dict.nodup_keys _)
    blocks.nodup_keys).mpr fun k => ?_)
  rw [Dict.mem_keys_ofList, map_fst_hashedBlocks]

theorem mapNames_hashedBlocks {i : ℕ} {ids : List JsonScalar}
    (h : blocks.get? (decimal i) = some ids) :
    mapNames (Dict.ofList (hashedBlocks settings blocks.entries)) i =
      ids.map (hashBlockName settings.blake2b) := by
  have hnodup : ((hashedBlocks settings blocks.entries).map Prod.fst).Nodup := by
    rw [map_fst_hashedBlocks]
    exact blocks.nodup_keys
  have hget : (Dict.ofList (hashedBlocks settings blocks.entries)).get? (decimal i) =
      some (ids.map (hashBlockName settings.blake2b)) :=
    (Dict.get?_ofList hnodup).mpr (List.mem_map.mpr ⟨_, Dict.get?_eq_some.mp h, rfl⟩)
  rw [mapNames, hget]
  rfl

theorem pullExternalData_stored {encodingFile blocksFile : ExternalFile} {size : ℕ}
    (hkeys : ∀ k ∈ blocks.keys, ∃ i < encodings.length, k = decimal i)
    (hcovers : ∀ i < encodings.length, decimal i ∈ blocks.keys)
    (hvacant : w.db.Vacant dpId) (hproject : w.db.checkProjectExists projectId = true)
    (hfresh : w.db.FreshToken token)
    (hfiles : SuppliedAsFiles w encodingFile blocksFile encodings blocks size)
    (h : pullExternalData settings projectId dpId encodingFile blocksFile token w = (w2, .ok b)) :
    ∃ decoded first declared, encodings.mapM decodeScalar = .ok decoded ∧
      w2.db.Ingested dpId first declared (packedItems size decoded
        (mapNames (Dict.ofList (hashedBlocks settings blocks.entries)))) := by
  obtain ⟨pairs, object, count, size', n, items, hread, -, hn, hitems, -, hcompleted⟩ :=
    pullExternalData_ok h hfresh (.inr hproject)
  obtain ⟨object', decoded, hobject, hsize, hdecoded, hencodings⟩ := hfiles.encodingObject
  obtain rfl := Option.some.inj (hread.encodingObject.symm.trans hobject)
  obtain rfl := Except.ok.inj (hread.hashSize.symm.trans hsize)
  obtain ⟨blocksObject, hblocksObject, hpairs⟩ := hread.blocksObject
  obtain ⟨blocksObject', hblocksObject', hpairs'⟩ := hfiles.blocksObject
  obtain rfl := Option.some.inj (hblocksObject.symm.trans hblocksObject')
  obtain rfl := Except.ok.inj (hpairs.symm.trans hpairs')
  have hcount : count = encodings.length := by
    rw [hread.count_eq, length_keys_hashedBlocks, length_keys hkeys hcovers]
  subst hcount
  obtain ⟨n', hn', hpos⟩ := settings.estimateGroupSize_natCast size
  obtain rfl := Except.ok.inj (hn.symm.trans hn')
  obtain ⟨s, stored, hs, hstored, -, -, rfl⟩ := externalEncodings_eq_ok (hitems (by omega))
  obtain rfl := Nat.cast_injective hs
  rw [Int.toNat_natCast] at hstored
  obtain rfl := Except.ok.inj (hstored.symm.trans hencodings)
  exact ⟨stored, _, _, hdecoded, hcompleted.ingested hvacant⟩

/-- An upload in one document and one in two files are stored alike exactly when what the mapping
names at each position is what the files have for the number of the position. -/
theorem sameStored_iff {db db' : Database} {dpId' : DpId} {size size' : ℕ} {stored : List Bytes}
    {names : ℕ → List BlockName} {decoded : List Bytes} {first : BlockId}
    {declared : List (BlockName × ℤ)}
    (hkeys : ∀ k ∈ blocks.keys, ∃ i < encodings.length, k = decimal i)
    (hcovers : ∀ i < encodings.length, decimal i ∈ blocks.keys)
    (h : StoredInOrder settings.blake2b db dpId encodings blocks size stored names)
    (hdecoded : encodings.mapM decodeScalar = .ok decoded)
    (hfiles : db'.Ingested dpId' first declared (packedItems size' decoded
      (mapNames (Dict.ofList (hashedBlocks settings blocks.entries))))) :
    SameStored db dpId db' dpId' ↔
      ListedInOrder settings.blake2b encodings blocks (fit size') := by
  have hlength : decoded.length = encodings.length := (mapM_eq_ok.mp hdecoded).length_eq.symm
  have hentries : blocks.entries.length = encodings.length := by
    rw [← length_keys hkeys hcovers, Dict.keys, List.length_map]
  have hfile : ∀ j < encodings.length, ∃ e ids, encodingAt encodings j = .ok e ∧
      blocks.get? (decimal j) = some ids ∧
      db'.recordsOf dpId' j = [packUInt32 j ++ fit size' e] ∧
        ∀ name, db'.InBlock dpId' j name ↔ name ∈ ids.map (hashBlockName settings.blake2b) := by
    intro j hj
    obtain ⟨ids, hids⟩ := Dict.mem_keys_iff.mp (hcovers j hj)
    have hscalar : encodings[j]? = some encodings[j] := List.getElem?_eq_getElem hj
    obtain ⟨e, he, hdecode⟩ := mapM_getElem?_of_mem hdecoded hscalar
    refine ⟨e, ids, ?_, hids, ?_, fun name => ?_⟩
    · unfold encodingAt
      rw [hscalar]
      exact hdecode
    · rw [hfiles.recordsOf_eq, he]
      rfl
    · rw [hfiles.inBlock_iff, mapNames_hashedBlocks hids]
      exact and_iff_right (hlength ▸ hj)
  constructor
  · intro hsame size₁ hsize j i ids hj
    obtain rfl := hsize.unique h.size_eq
    obtain ⟨e, he, hrecord, hnames⟩ := h.recordsOf_eq hj
    have hlt := (List.getElem?_eq_some_iff.mp hj).1
    obtain ⟨e', ids', he', hids', hrecord', hnames'⟩ := hfile j (hentries ▸ hlt)
    obtain ⟨hrecords, hblocks⟩ := hsame j
    rw [hrecord, hrecord'] at hrecords
    exact ⟨e, e', ids', he, he', List.append_cancel_left (List.singleton_inj.mp hrecords), hids',
      fun name => (hnames name).symm.trans ((hblocks name).trans (hnames' name))⟩
  · intro hlisted j
    obtain ⟨first', declared', hingested⟩ := h.ingested
    by_cases hj : j < encodings.length
    · obtain ⟨p, hp⟩ : ∃ p, blocks.entries[j]? = some p :=
        ⟨_, List.getElem?_eq_getElem (hentries ▸ hj)⟩
      obtain ⟨k, ids⟩ := p
      obtain ⟨i, -, rfl⟩ := hkeys k (List.mem_map_of_mem (List.mem_of_getElem? hp))
      obtain ⟨e, he, hrecord, hnames⟩ := h.recordsOf_eq hp
      obtain ⟨e', ids', he', hids', hrecord', hnames'⟩ := hfile j hj
      obtain ⟨e₁, e₂, ids₂, he₁, he₂, hfit, hids₂, hnames₂⟩ := hlisted size h.size_eq j i ids hp
      obtain rfl := Except.ok.inj (he.symm.trans he₁)
      obtain rfl := Except.ok.inj (he'.symm.trans he₂)
      obtain rfl := Option.some.inj (hids'.symm.trans hids₂)
      exact ⟨by rw [hrecord, hrecord', hfit], fun name =>
        (hnames name).trans ((hnames₂ name).trans (hnames' name).symm)⟩
    · have hj' : ¬ j < decoded.length := hlength ▸ hj
      have hj'' : ¬ j < stored.length := by rwa [h.length_eq, hentries]
      refine ⟨?_, fun name => ?_⟩
      · rw [hingested.recordsOf_eq, hfiles.recordsOf_eq, List.getElem?_eq_none (not_lt.mp hj'),
          List.getElem?_eq_none (not_lt.mp hj'')]
        rfl
      · rw [hingested.inBlock_iff, hfiles.inBlock_iff]
        simp [hj', hj'']

/-- The records of an upload with separate encodings and blocks keep their numbers exactly when the
mapping of the blocks names, at each position, what belongs to the number of the position. -/
theorem numberedAsUploaded_iff
    (hkeys : ∀ k ∈ blocks.keys, ∃ i < encodings.length, k = decimal i)
    (hvacant : w.db.Vacant dpId) (hproject : w.db.checkProjectExists projectId = true)
    (hencodings : clkJson.encodings = some (.array encodings))
    (hblocks : clkJson.blocks = some (.map blocks))
    (hview : handleEncodingUploadJson settings projectId dpId clkJson token usesBlocking w =
      (w1, .ok job))
    (htask : handleRawUpload settings projectId dpId token w1 = (w2, .ok b)) :
    (NumberedAsUploaded settings.blake2b w2.db dpId encodings blocks ↔
      ListedInOrder settings.blake2b encodings blocks id) ∧
    ((∀ i < encodings.length, decimal i ∈ blocks.keys) → ∀ (v v' : World)
      (projectId' : ProjectId) (dpId' : DpId) (token' : Token)
      (encodingFile blocksFile : ExternalFile)
      (size : ℕ) (b' : Bool), v.db.Vacant dpId' → v.db.checkProjectExists projectId' = true →
        v.db.FreshToken token' → SuppliedAsFiles v encodingFile blocksFile encodings blocks size →
          pullExternalData settings projectId' dpId' encodingFile blocksFile token' v =
            (v', .ok b') →
            (SameStored w2.db dpId v'.db dpId' ↔
              ListedInOrder settings.blake2b encodings blocks (fit size))) := by
  obtain ⟨size, stored, names, hstored⟩ :=
    storedInOrder_of_ok hkeys hvacant hproject hencodings hblocks hview htask
  refine ⟨numbered_iff hkeys hstored, ?_⟩
  intro hcovers v v' projectId' dpId' token' encodingFile blocksFile size' b' hvacant' hproject'
    hfresh' hfiles hpull
  obtain ⟨decoded, first, declared, hdecoded, hingested⟩ :=
    pullExternalData_stored hkeys hcovers hvacant' hproject' hfresh' hfiles hpull
  exact sameStored_iff hkeys hcovers hstored hdecoded hingested

/-- A mapping that names the first encodings one after the other, when all have one size. -/
theorem listedInOrder_of_ascending (size : ℕ) (blake2b : Blake2b)
    (hasc : ∀ (j : ℕ) p, blocks.entries[j]? = some p → p.1 = decimal j)
    (hread : ∀ j < blocks.entries.length, ∃ e, encodingAt encodings j = .ok e ∧ e.length = size) :
    ListedInOrder blake2b encodings blocks id := by
  rintro size' ⟨i₀, ids₀, e₀, hfirst, he₀, rfl⟩ j i ids hj
  obtain rfl := decimal_natCast_injective (hasc 0 _ hfirst)
  obtain rfl := decimal_natCast_injective (hasc j _ hj)
  obtain ⟨e, he, hsize⟩ := hread i (List.getElem?_eq_some_iff.mp hj).1
  obtain ⟨e₁, he₁, hsize₁⟩ := hread 0 (List.getElem?_eq_some_iff.mp hfirst).1
  obtain rfl := Except.ok.inj (he₀.symm.trans he₁)
  exact ⟨e, e, ids, he, he, fit_of_length (hsize.trans hsize₁.symm),
    Dict.get?_eq_some.mpr (List.mem_of_getElem? hj), fun _ => Iff.rfl⟩

end Upload

def twoEncodings : List JsonScalar := [.str "QQ==".toList, .str "Qg==".toList]

def ascendingBlocks : Dict (List Char) (List JsonScalar) :=
  ⟨[(['0'], [.str ['0']]), (['1'], [.str ['1']])], by decide⟩

def descendingBlocks : Dict (List Char) (List JsonScalar) :=
  ⟨[(['1'], [.str ['1']]), (['0'], [.str ['0']])], by decide⟩

theorem stored_twoEncodings (blocks : Dict (List Char) (List JsonScalar))
    (entries : List (List JsonScalar)) (stored : List Bytes)
    (hentries : inlineEntries true ⟨none, none, some (.array twoEncodings), some (.map blocks)⟩ =
      .ok entries) (hcountable : Countable defaultSettings entries)
    (hread : ReadEntries entries 1 stored) :
    handleEncodingUploadJson defaultSettings "project" 1
      ⟨none, none, some (.array twoEncodings), some (.map blocks)⟩ "receipt" true
      ⟨newProject true, Dict.empty, Dict.empty⟩ =
        (quarantined defaultSettings ⟨newProject true, Dict.empty, Dict.empty⟩ 1 "receipt" entries,
          .ok .handleRawUpload) ∧
    ∃ w2 b, handleRawUpload defaultSettings "project" 1 "receipt"
      (quarantined defaultSettings ⟨newProject true, Dict.empty, Dict.empty⟩ 1 "receipt" entries) =
        (w2, .ok b) := by
  have hcan := canUpload_newProject true (show (1 : ℕ) < 2 ^ 31 by decide) "receipt"
  constructor
  · exact (handleEncodingUploadJson_inline rfl).mpr
      ⟨rfl, entries, hentries, ⟨hcan.fresh, hcountable⟩, rfl, rfl⟩
  · exact handleRawUpload_succeeds defaultSettings hcan rfl hcountable.length (by decide) hread

theorem numberedAsUploaded_ascending : ∃ w1 w2 job b,
    handleEncodingUploadJson defaultSettings "project" 1
      ⟨none, none, some (.array twoEncodings), some (.map ascendingBlocks)⟩ "receipt" true
      ⟨newProject true, Dict.empty, Dict.empty⟩ = (w1, .ok job) ∧
    handleRawUpload defaultSettings "project" 1 "receipt" w1 = (w2, .ok b) ∧
    NumberedAsUploaded knownDigests w2.db 1 twoEncodings ascendingBlocks := by
  obtain ⟨hview, w2, b, htask⟩ := stored_twoEncodings ascendingBlocks
    [[.str "QQ==".toList, .str ['0']], [.str "Qg==".toList, .str ['1']]] [[65], [66]] rfl
    (countable_of_length (by decide) (by decide) (by decide)) ⟨rfl, rfl, by decide⟩
  refine ⟨_, w2, _, b, hview, htask, ?_⟩
  have hcan := canUpload_newProject true (show (1 : ℕ) < 2 ^ 31 by decide) "receipt"
  refine (numberedAsUploaded_iff (by decide) hcan.vacant rfl rfl rfl hview htask).1.mpr ?_
  refine listedInOrder_of_ascending 1 knownDigests ?_ ?_
  · rintro (_ | _ | j) p hp
    · cases hp
      rfl
    · cases hp
      rfl
    · cases hp
  · rintro (_ | _ | j) hj
    · exact ⟨[65], rfl, rfl⟩
    · exact ⟨[66], rfl, rfl⟩
    · exact absurd hj (by simp [ascendingBlocks])

/-- When the mapping names the second encoding first, the records exchange their numbers. -/
theorem not_numberedAsUploaded_descending : ∃ w1 w2 job b,
    handleEncodingUploadJson defaultSettings "project" 1
      ⟨none, none, some (.array twoEncodings), some (.map descendingBlocks)⟩ "receipt" true
      ⟨newProject true, Dict.empty, Dict.empty⟩ = (w1, .ok job) ∧
    handleRawUpload defaultSettings "project" 1 "receipt" w1 = (w2, .ok b) ∧
    ¬ NumberedAsUploaded knownDigests w2.db 1 twoEncodings descendingBlocks := by
  obtain ⟨hview, w2, b, htask⟩ := stored_twoEncodings descendingBlocks
    [[.str "Qg==".toList, .str ['1']], [.str "QQ==".toList, .str ['0']]] [[66], [65]] rfl
    (countable_of_length (by decide) (by decide) (by decide)) ⟨rfl, rfl, by decide⟩
  refine ⟨_, w2, _, b, hview, htask, fun hnumbered => ?_⟩
  have hcan := canUpload_newProject true (show (1 : ℕ) < 2 ^ 31 by decide) "receipt"
  obtain ⟨size, stored, names, hstored⟩ :=
    storedInOrder_of_ok (by decide) hcan.vacant rfl rfl rfl hview htask
  obtain rfl : size = 1 := by
    exact hstored.size_eq.unique ⟨1, _, [66], rfl, rfl, rfl⟩
  obtain ⟨e, he, hrecord, -⟩ := hstored.recordsOf_eq (j := 0) (i := 1) rfl
  cases he
  obtain ⟨e', ids, he', -, hrecord', -⟩ := hnumbered 0 (by simp [hrecord])
  cases he'
  rw [hrecord] at hrecord'
  exact absurd hrecord' (by decide)

end Views
end EntityService
