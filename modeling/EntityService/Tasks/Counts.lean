import EntityService.Lib.Overwriting
import EntityService.Tasks.Success

/-! When the counts of an object-store upload agree with the rows that it stored. -/
namespace EntityService.Tasks
open Lib Database

/-- The provider has one row for each of the declared encodings, numbered from zero, and each
of its blocks has as many rows as its count says. -/
structure Consistent (db : Database) (dpId : DpId) (token : Token) : Prop where
  encodings : ∀ r ∈ db.uploads, r.token = token →
    ((db.encodings.filter (fun e => e.dp = dpId)).length : ℤ) = r.count ∧
      ((db.encodings.filter (fun e => e.dp = dpId)).map EncodingRow.encodingId).Perm
        (computeEncodingIds (List.range r.count.toNat) dpId)
  blocks : ∀ r ∈ db.blocks, r.dp = dpId → r.count =
    (db.encodingblocks.countP (fun e => e.dp = dpId ∧ e.blockId = r.blockId) : ℤ)

/-- The metadata and the blocks of an object-store upload match its encodings: the declared
count is there to be read, no blocks are given twice for an encoding, and the size is one. -/
def Matching (w : World) : Job → Prop
  | .pullExternalDataEncodingsOnly file => ∃ object count, w.objects.get? file = some object ∧
      object.hashCount = .ok count ∧ 0 ≤ count ∧
      (isJson file = true → count ≤ object.clks.length)
  | .pullExternalData encodings blocks => ∃ object count size blocksObject pairs,
      w.objects.get? encodings = some object ∧ object.hashCount = .ok count ∧
      object.hashSize = .ok size ∧ w.objects.get? blocks = some blocksObject ∧
      blocksObject.blocks.mapM id = .ok pairs ∧ 0 ≤ size ∧
      (isJson encodings = true → count ≤ object.clks.length) ∧
      pairs.Pairwise fun p q => p.1 = q.1 → p.2 = []
  | .handleRawUpload => False

/-- The number of stored encodings is the declared one when the object has that many. -/
theorem length_objectEncodings_eq_iff {json : Bool} {clks : Generator JsonScalar} {data : Bytes}
    {size : ℕ} {count : ℤ} {encodings : List Bytes}
    (h : objectEncodings json clks data size count.toNat = .ok encodings) :
    (encodings.length : ℤ) = count ↔ 0 ≤ count ∧ (json = true → count ≤ clks.length) := by
  have hlen := length_objectEncodings h
  cases json with
  | true =>
    simp only [if_true] at hlen
    simp only [forall_const]
    omega
  | false =>
    simp only [Bool.false_eq_true, if_false] at hlen
    simp only [Bool.false_eq_true, false_implies, and_true]
    omega

section Completed
variable {db db' : Database} {dpId : DpId} {token : Token} {count size : ℤ}
  {blocks : List (BlockName × ℤ)} {items : List Item} {m : ℕ}

/-- A completed upload is consistent when it stored the declared number of encodings, and the
declared number of names of each block. -/
theorem Completed.consistent_iff (h : Completed db db' dpId token count size blocks items)
    (hv : db.Vacant dpId) (hids : items.map Prod.fst = List.range m) :
    Consistent db' dpId token ↔ (m : ℤ) = count ∧
      ∀ b ∈ blocks, b.2 = ((items.flatMap fun t => t.2.2).count b.1 : ℤ) := by
  have hi := h.ingested hv
  have hmap := hi.map_encodingId
  rw [hids] at hmap
  have hlen : (db'.encodings.filter (fun e => e.dp = dpId)).length = m := by
    have hlength := congrArg List.length hmap
    simpa [computeEncodingIds] using hlength
  constructor
  · rintro ⟨hencodings, hblocks⟩
    obtain ⟨r, hr, -, ht⟩ := exists_of_uploadKeys h.keys
    obtain ⟨-, rfl, -⟩ := of_uploadKeys h.keys h.fresh hr ht
    exact ⟨hlen ▸ (hencodings r hr ht).1, hi.counts_iff.mp hblocks⟩
  · rintro ⟨rfl, hblocks⟩
    refine ⟨fun r hr ht => ?_, hi.counts_iff.mpr hblocks⟩
    obtain ⟨-, hcount, -⟩ := of_uploadKeys h.keys h.fresh hr ht
    rw [hcount, hlen, hmap, Int.toNat_natCast]
    exact ⟨rfl, List.Perm.refl _⟩

end Completed
/-- In the default block every encoding is listed once. -/
theorem count_default (size : ℕ) (encodings : List Bytes) :
    ((packedItems size encodings fun _ => [DEFAULT_BLOCK_ID]).flatMap fun t => t.2.2).count
      DEFAULT_BLOCK_ID = encodings.length := by
  rw [flatMap_packedItems, List.count_flatMap]
  simp [Function.comp_def]

/-- When every key is the number of an encoding, the names that are stored are those that the
blocks file does not overwrite. -/
theorem perm_mapNames {hashed : List (List Char × List BlockName)} {m : ℕ}
    (hkeys : ∀ i < m, decimal i ∈ (Dict.ofList hashed).keys)
    (hlen : (Dict.ofList hashed).keys.length = m) :
    ((List.range m).flatMap (mapNames (Dict.ofList hashed))).Perm
      ((Dict.ofList hashed).entries.flatMap Prod.snd) := by
  have hnodup : ((List.range m).map fun i : ℕ => decimal i).Nodup :=
    List.nodup_range.map decimal_natCast_injective
  have hsub : (List.range m).map (fun i : ℕ => decimal i) ⊆ (Dict.ofList hashed).keys := by
    intro k hk
    obtain ⟨i, hi, rfl⟩ := List.mem_map.mp hk
    exact hkeys i (List.mem_range.mp hi)
  have hperm := (List.subperm_of_subset hnodup hsub).perm_of_length_le (by simp [hlen])
  have hflat := Dict.perm_flatMap_get? hperm
  rw [List.flatMap_map] at hflat
  exact hflat

/-- The declared counts of the blocks are those of the stored names when nothing in the blocks
file is overwritten. -/
theorem counted_iff {hashed : List (List Char × List BlockName)} {stored : List BlockName}
    (hstored : stored.Perm ((Dict.ofList hashed).entries.flatMap Prod.snd)) :
    (∀ b ∈ counted (hashed.flatMap Prod.snd), b.2 = (stored.count b.1 : ℤ)) ↔
      hashed.Pairwise fun p q => p.1 = q.1 → p.2 = [] := by
  have hperm := Dict.perm_flatMap_overwritten hashed
  have hcount : ∀ name, (hashed.flatMap Prod.snd).count name =
      stored.count name + (Dict.overwritten hashed).count name := by
    intro name
    rw [hperm.count_eq, List.count_append, hstored.count_eq]
  rw [← Dict.overwritten_eq_nil_iff]
  constructor
  · intro h
    by_contra hne
    obtain ⟨name, hname⟩ := List.exists_mem_of_ne_nil _ hne
    have hmem : name ∈ hashed.flatMap Prod.snd :=
      hperm.mem_iff.mpr (List.mem_append_right _ hname)
    have heq := h (name, ((hashed.flatMap Prod.snd).count name : ℤ))
      (mem_counted.mpr ⟨hmem, rfl⟩)
    have hpos := List.count_pos_iff.mpr hname
    have := hcount name
    simp only at heq
    omega
  · intro h b hb
    rw [(mem_counted.mp hb).2, hcount, h]
    simp

theorem estimateGroupSize_pos {size n : ℤ} (h : estimateGroupSize size = .ok n) (hsize : 0 ≤ size) :
    1 ≤ n := by
  obtain ⟨n', hn', hpos⟩ := estimateGroupSize_natCast size.toNat
  rw [Int.toNat_of_nonneg hsize, h] at hn'
  cases hn'
  exact hpos

section Pulled
variable {settings : Settings} {projectId : ProjectId} {dpId : DpId} {token : Token} {w : World}

theorem consistent_encodingsOnly_iff {file : ExternalFile} (hfresh : w.db.FreshToken token)
    (hv : w.db.Vacant dpId) (hready : (runJob settings projectId dpId token
      (.pullExternalDataEncodingsOnly file) w).1.db.ReadyUpload token) :
    Consistent (runJob settings projectId dpId token
      (.pullExternalDataEncodingsOnly file) w).1.db dpId token ↔
      Matching w (.pullExternalDataEncodingsOnly file) := by
  rcases hrun : runJob settings projectId dpId token (.pullExternalDataEncodingsOnly file) w with
    ⟨w', r⟩
  rw [hrun] at hready
  obtain ⟨b, h⟩ := errback_ready hrun hready
  obtain ⟨count, size, encodings, hread, hcompleted⟩ :=
    pullExternalDataEncodingsOnly_ok h hfresh (Or.inl hready)
  obtain ⟨object, hobject, hcount, hsize, henc⟩ := hread.read
  rw [hcompleted.consistent_iff hv (map_fst_packedItems _ _ _)]
  simp only [List.mem_singleton, forall_eq, count_default]
  have hlen := length_objectEncodings_eq_iff henc
  constructor
  · rintro ⟨hm, -⟩
    obtain ⟨hpos, hle⟩ := hlen.mp hm
    exact ⟨object, count, hobject, hcount, hpos, hle⟩
  · rintro ⟨object', count', hobject', hcount', hpos, hle⟩
    obtain rfl := Option.some.inj (hobject.symm.trans hobject')
    obtain rfl := Except.ok.inj (hcount.symm.trans hcount')
    have hm := hlen.mpr ⟨hpos, hle⟩
    exact ⟨hm, hm.symm⟩

theorem consistent_blocks_iff (hsettings : settings.estimateGroupSize = estimateGroupSize)
    {encodingFile blocksFile : ExternalFile} (hfresh : w.db.FreshToken token)
    (hv : w.db.Vacant dpId) (hready : (runJob settings projectId dpId token
      (.pullExternalData encodingFile blocksFile) w).1.db.ReadyUpload token) :
    Consistent (runJob settings projectId dpId token
      (.pullExternalData encodingFile blocksFile) w).1.db dpId token ↔
      Matching w (.pullExternalData encodingFile blocksFile) := by
  rcases hrun : runJob settings projectId dpId token (.pullExternalData encodingFile blocksFile) w
    with ⟨w', r⟩
  rw [hrun] at hready
  obtain ⟨b, h⟩ := errback_ready hrun hready
  obtain ⟨pairs, object, count, size, n, items, hread, hne, hn, hitems, hnone, hcompleted⟩ :=
    pullExternalData_ok h hfresh (Or.inl hready)
  obtain ⟨blocksObject, hblocks, hpairs⟩ := hread.blocksObject
  -- the inputs that the condition speaks of are those that were read
  have hmatching : Matching w (.pullExternalData encodingFile blocksFile) ↔ 0 ≤ size ∧
      (isJson encodingFile = true → count ≤ object.clks.length) ∧
      pairs.Pairwise fun p q => p.1 = q.1 → p.2 = [] := by
    constructor
    · rintro ⟨object', count', size', blocksObject', pairs', hobject', hcount', hsize', hblocks',
        hpairs', hpos, hle, hpairwise⟩
      obtain rfl := Option.some.inj (hread.encodingObject.symm.trans hobject')
      obtain rfl := Except.ok.inj (hread.hashCount.symm.trans hcount')
      obtain rfl := Except.ok.inj (hread.hashSize.symm.trans hsize')
      obtain rfl := Option.some.inj (hblocks.symm.trans hblocks')
      obtain rfl := Except.ok.inj (hpairs.symm.trans hpairs')
      exact ⟨hpos, hle, hpairwise⟩
    · rintro ⟨hpos, hle, hpairwise⟩
      exact ⟨object, count, size, blocksObject, pairs, hread.encodingObject, hread.hashCount,
        hread.hashSize, hblocks, hpairs, hpos, hle, hpairwise⟩
  rw [hmatching]
  rw [hsettings] at hn
  have hcounteq := hread.count_eq
  rcases lt_or_ge 0 n with hpos | hpos
  · obtain ⟨s, encodings, rfl, henc, -, hkeys, rfl⟩ := externalEncodings_eq_ok (hitems hpos)
    rw [hcompleted.consistent_iff hv (map_fst_packedItems _ _ _), flatMap_packedItems]
    have hlen := length_objectEncodings_eq_iff henc
    have hhashed : (hashedBlocks settings pairs).Pairwise (fun p q => p.1 = q.1 → p.2 = []) ↔
        pairs.Pairwise fun p q => p.1 = q.1 → p.2 = [] := by
      unfold hashedBlocks
      rw [List.pairwise_map]
      simp only [List.map_eq_nil_iff]
    have hstored : (encodings.length : ℤ) = count → _ := fun hm =>
      counted_iff (perm_mapNames hkeys (by omega))
    constructor
    · rintro ⟨hm, hcounts⟩
      exact ⟨by omega, (hlen.mp hm).2, hhashed.mp ((hstored hm).mp hcounts)⟩
    · rintro ⟨-, hle, hpairwise⟩
      have hm := hlen.mpr ⟨by omega, hle⟩
      exact ⟨hm, (hstored hm).mpr (hhashed.mpr hpairwise)⟩
  · -- groups of no elements: nothing is stored, but at least one encoding is declared
    have hsize : ¬ 0 ≤ size := fun hle => absurd (estimateGroupSize_pos hn hle) (by omega)
    have hcount : count ≠ 0 := by
      rintro rfl
      obtain ⟨name, hname⟩ := List.exists_mem_of_ne_nil _ hne
      obtain ⟨p, hp, -⟩ := List.mem_flatMap.mp hname
      have hkey := Dict.mem_keys_ofList.mpr (List.mem_map_of_mem (f := Prod.fst) hp)
      have hnil := List.length_eq_zero_iff.mp (by exact_mod_cast hcounteq.symm)
      exact List.not_mem_nil (hnil ▸ hkey)
    obtain rfl := hnone hpos
    rw [hcompleted.consistent_iff hv (m := 0) rfl]
    constructor
    · rintro ⟨hm, -⟩
      exact absurd hm.symm hcount
    · rintro ⟨hle, -⟩
      exact absurd hle hsize

/-- A ready object-store upload of a provider without earlier data has counts that agree with
its rows exactly when its metadata and its blocks file match its encodings. -/
theorem runJob_consistent_iff (hsettings : settings.estimateGroupSize = estimateGroupSize)
    {job : Job} (hjob : job ≠ .handleRawUpload) (hfresh : w.db.FreshToken token)
    (hv : w.db.Vacant dpId)
    (hready : (runJob settings projectId dpId token job w).1.db.ReadyUpload token) :
    Consistent (runJob settings projectId dpId token job w).1.db dpId token ↔ Matching w job := by
  cases job with
  | handleRawUpload => exact absurd rfl hjob
  | pullExternalDataEncodingsOnly file => exact consistent_encodingsOnly_iff hfresh hv hready
  | pullExternalData encodings blocks => exact consistent_blocks_iff hsettings hfresh hv hready

end Pulled

/-- A JSON object with the encoding `A`, in base64, and a declared count. -/
def declaring (count : ℤ) : World where
  db := newProject false
  quarantine := Dict.empty
  objects := ⟨[(⟨"uploads", "project/1/clks.json".toList⟩,
    ⟨.ok count, .ok 1, [], [.ok (.str "QQ==".toList)], []⟩)], List.nodup_singleton _⟩

theorem readObject_declaring {count : ℤ} (h : 1 ≤ count) :
    ReadObject (declaring count) ⟨"uploads", "project/1/clks.json".toList⟩ count 1 [[65]] where
  read := by
    refine ⟨_, rfl, rfl, rfl, ?_⟩
    have htake : ([.ok (.str "QQ==".toList)] : Generator JsonScalar).take count.toNat =
        [.ok (.str "QQ==".toList)] := List.take_of_length_le (by simp; omega)
    have hjson : isJson ⟨"uploads", "project/1/clks.json".toList⟩ = true := by decide
    rw [objectEncodings, hjson, if_pos rfl, htake]
    rfl
  length_le := by decide

theorem readyUpload_declaring {count : ℤ} (h : 1 ≤ count) (hcount : Int4 count) :
    (runJob defaultSettings "project" 1 "receipt"
      (.pullExternalDataEncodingsOnly ⟨"uploads", "project/1/clks.json".toList⟩)
      (declaring count)).1.db.ReadyUpload "receipt" := by
  have hcan : CanUpload (declaring count).db 1 "receipt" :=
    canUpload_newProject false (show (1 : ℕ) < 2 ^ 31 by decide) "receipt"
  have hproject : (declaring count).db.checkProjectExists "project" = true := rfl
  have hsize : Int4 (1 : ℕ) := by decide
  obtain ⟨w', b, hrun, hready⟩ := runJob_encodingsOnly_succeeds defaultSettings hcan hproject
    (readObject_declaring h) hcount hsize (by decide)
  rw [hrun]
  exact hready

theorem runJob_consistent_declaring :
    Consistent (runJob defaultSettings "project" 1 "receipt"
      (.pullExternalDataEncodingsOnly ⟨"uploads", "project/1/clks.json".toList⟩)
      (declaring 1)).1.db 1 "receipt" := by
  have hcan := canUpload_newProject false (show (1 : ℕ) < 2 ^ 31 by decide) "receipt"
  have hready := readyUpload_declaring (le_refl 1) (by decide)
  refine (runJob_consistent_iff rfl (by decide) hcan.fresh hcan.vacant hready).mpr ?_
  exact ⟨_, 1, rfl, rfl, by decide, fun _ => by decide⟩

/-- Two encodings are declared and one is there: the upload is ready, with a count of two and
a single row. -/
theorem not_consistent_declaring :
    (runJob defaultSettings "project" 1 "receipt"
        (.pullExternalDataEncodingsOnly ⟨"uploads", "project/1/clks.json".toList⟩)
        (declaring 2)).1.db.ReadyUpload "receipt" ∧
      ¬ Consistent (runJob defaultSettings "project" 1 "receipt"
        (.pullExternalDataEncodingsOnly ⟨"uploads", "project/1/clks.json".toList⟩)
        (declaring 2)).1.db 1 "receipt" := by
  have hcan := canUpload_newProject false (show (1 : ℕ) < 2 ^ 31 by decide) "receipt"
  have hready := readyUpload_declaring (show (1 : ℤ) ≤ 2 by decide) (by decide)
  refine ⟨hready, fun hconsistent => ?_⟩
  obtain ⟨object, count, hobject, hcount, -, hle⟩ :=
    (consistent_encodingsOnly_iff hcan.fresh hcan.vacant hready).mp hconsistent
  cases hobject
  cases hcount
  exact absurd (hle (by decide)) (by decide)

end EntityService.Tasks
