import EntityService.Service.Storage

/-! The permutations that are made after a mapping has been completed, one for each of two
datasets, and the mask. -/
namespace EntityService.Tasks.Permutation
open Lib Service

/-- An outcome of `random.shuffle` for every list. -/
structure Shuffle where
  order : List ℕ → List ℕ
  perm : ∀ l, (order l).Perm l

/-- The outcomes of the three shuffles of the task. -/
structure Shuffles where
  newIndexes : Shuffle
  aValues : Shuffle
  bValues : Shuffle

def convertMappingToList {ν : Type} (permutation : Dict ℕ ν) : Except Error (List ν) :=
  (List.range permutation.keys.length).mapM fun i => orRaise (permutation.get? i) Error.keyError

def groupIndices (group : Group) : Except Error (ℕ × ℕ) :=
  match group.insertionSort fun x y => toLex x ≤ toLex y with
  | [(_, aIndex), (_, bIndex)] => .ok (aIndex, bIndex)
  | _ => .error .assertionError

/-- The new indexes of the records so far, and the rows that are included in the mask. -/
structure Packed where
  aPermutation : Dict ℕ ℕ
  bPermutation : Dict ℕ ℕ
  mask : Dict ℕ Bool

/-- Pack the records of a group in the same location in both permutations. -/
def packGroup (remainingNewIndexes : List ℕ) (p : Packed) (group : Group × ℕ) :
    Except Error Packed := do
  let (aIndex, bIndex) ← groupIndices group.1
  let mappingIndex ← orRaise remainingNewIndexes[group.2]? Error.indexError
  return ⟨p.aPermutation.set aIndex mappingIndex, p.bPermutation.set bIndex mappingIndex,
    p.mask.set mappingIndex true⟩

/-- Map an index that is not mapped yet to the last of the remaining values. -/
def fillIndex (p : Dict ℕ ℕ × List ℕ) (index : ℕ) : Except Error (Dict ℕ ℕ × List ℕ) := do
  if index ∈ p.1.keys then return p
  else
    let mappingIndex ← orRaise p.2.getLast? Error.indexError
    return (p.1.set index mappingIndex, p.2.dropLast)

/-- Fill in all the gaps of a permutation. The set of the remaining values is iterated in some
order, which the shuffle makes irrelevant. -/
def fillGaps (shuffle : Shuffle) (smallerDatasetSize lenFilters : ℕ)
    (remainingNewIndexes : List ℕ) (permutation : Dict ℕ ℕ) : Except Error (List ℕ) := do
  let remainingValues :=
    List.range' smallerDatasetSize (lenFilters - smallerDatasetSize) ∪ remainingNewIndexes.dedup
  let (permutation, _) ← (List.range lenFilters).foldlM fillIndex
    (permutation, shuffle.order remainingValues)
  convertMappingToList permutation

/-- The two permutations and the mask. -/
def permuteMapping (shuffles : Shuffles) (lenFilters1 lenFilters2 : ℕ) (groups : List Group) :
    Except Error (List ℕ × List ℕ × List ℕ) := do
  let smallerDatasetSize := min lenFilters1 lenFilters2
  let numberInCommon := groups.length
  let mask := Dict.ofList ((List.range smallerDatasetSize).map fun i => (i, false))
  let remainingNewIndexes := shuffles.newIndexes.order (List.range smallerDatasetSize)
  let packed ← groups.zipIdx.foldlM (packGroup remainingNewIndexes) ⟨.empty, .empty, mask⟩
  let remainingNewIndexes := remainingNewIndexes.drop numberInCommon
  let aPermutation ← fillGaps shuffles.aValues smallerDatasetSize lenFilters1 remainingNewIndexes
    packed.aPermutation
  let bPermutation ← fillGaps shuffles.bValues smallerDatasetSize lenFilters2 remainingNewIndexes
    packed.bPermutation
  let mask ← convertMappingToList packed.mask
  return (aPermutation, bPermutation, mask.map Bool.toNat)

/-- The one transaction of `permute_mapping_data`. -/
def permuteMappingData (shuffles : Shuffles) (projectId : ProjectId) (runId : RunId)
    (lenFilters1 lenFilters2 : ℕ) : Action Storage Error Unit :=
  Action.atomic fun s => do
    let groups ← s.getRunResult runId
    let (aPermutation, bPermutation, mask) ←
      permuteMapping shuffles lenFilters1 lenFilters2 groups
    let dpIds := s.getDataproviderIds projectId
    let s ← s.insertPermutation runId (← orRaise dpIds[0]? Error.indexError) aPermutation
    let s ← s.insertPermutation runId (← orRaise dpIds[1]? Error.indexError) bPermutation
    s.insertPermutationMask projectId runId mask

section Filling
variable {d : Dict ℕ ℕ} {pool : List ℕ}

/-- The indexes that a permutation does not map yet. -/
def gaps (d : Dict ℕ ℕ) (is : List ℕ) : List ℕ := is.filter fun i => i ∉ d.keys

/-- The gaps take the last values one by one. -/
theorem fillIndex_foldlM {is : List ℕ} (his : is.Nodup)
    (h : (gaps d is).length ≤ pool.length) : ∃ d' rest,
      is.foldlM fillIndex (d, pool) = .ok (d', rest) ∧
        d'.entries = d.entries ++ (gaps d is).zip pool.reverse := by
  induction is generalizing d pool with
  | nil => exact ⟨d, pool, rfl, by simp [gaps]⟩
  | cons i is ih =>
    obtain ⟨hi, his⟩ := List.nodup_cons.mp his
    rw [List.foldlM_cons]
    by_cases hmem : i ∈ d.keys
    · have hgaps : gaps d (i :: is) = gaps d is := by simp [gaps, hmem]
      rw [hgaps] at h ⊢
      rw [fillIndex, if_pos hmem]
      exact ih his h
    · have hgaps : gaps d (i :: is) = i :: gaps d is := by simp [gaps, hmem]
      rw [hgaps] at h ⊢
      obtain ⟨init, v, rfl⟩ : ∃ init v, pool = init ++ [v] := by
        refine List.eq_nil_or_concat' pool |>.resolve_left ?_
        rintro rfl
        simp at h
      have hsame : gaps (d.set i v) is = gaps d is := by
        refine List.filter_congr fun j hj => ?_
        have hne : j ≠ i := fun he => hi (he ▸ hj)
        simp [hne]
      have hlen : (gaps (d.set i v) is).length ≤ init.length := by
        rw [hsame]
        simpa using h
      obtain ⟨d', rest, hfold, hentries⟩ := ih his hlen
      refine ⟨d', rest, ?_, ?_⟩
      · rw [fillIndex, if_neg hmem]
        simp only [List.getLast?_concat, orRaise, Option.elim_some, ok_bind, List.dropLast_concat]
        exact hfold
      · rw [hentries, hsame, Dict.entries_set_of_not_mem v hmem]
        simp
end Filling

theorem convertMappingToList_ok {ν : Type} {d : Dict ℕ ν} {n : ℕ}
    (hkeys : d.keys.Perm (List.range n)) : ∃ l, convertMappingToList d = .ok l ∧
      l.Perm d.values ∧ ∀ i, l[i]? = d.get? i := by
  have hlength : d.keys.length = n := by simpa using hkeys.length_eq
  have hfound : ∀ i ∈ List.range n, ∃ v, orRaise (d.get? i) Error.keyError = .ok v := by
    intro i hi
    obtain ⟨v, hv⟩ := Dict.mem_keys_iff.mp (hkeys.mem_iff.mpr hi)
    exact ⟨v, orRaise_eq_ok.mpr hv⟩
  obtain ⟨l, hl⟩ := mapM_succeeds hfound
  refine ⟨l, by rw [convertMappingToList, hlength, hl], ?_, fun i => ?_⟩
  · have hsome : (List.range n).map d.get? = l.map some := by
      have hall := (mapM_eq_ok.mp hl).imp fun i v h => orRaise_eq_ok.mp h
      exact List.forall₂_eq_eq_eq ▸ by
        rw [List.forall₂_map_left_iff, List.forall₂_map_right_iff]
        exact hall
    have hfilter : (List.range n).filterMap d.get? = l := by
      have hid := congrArg (List.filterMap id) hsome
      simpa [List.filterMap_map] using hid
    rw [← hfilter, d.values_eq_filterMap]
    exact (hkeys.filterMap d.get?).symm
  · by_cases hi : i < n
    · obtain ⟨v, hv, hget⟩ := mapM_getElem?_of_mem hl (List.getElem?_range hi)
      rw [hv, orRaise_eq_ok.mp hget]
    · have hlen : l.length = n := by simpa using (mapM_eq_ok.mp hl).length_eq.symm
      have hnone : d.get? i = none := by
        rw [Dict.get?_eq_none, hkeys.mem_iff, List.mem_range]
        exact hi
      rw [hnone, List.getElem?_eq_none (by omega)]

/-- The gaps take up all values that the packed records have left. -/
theorem fillGaps_ok (shuffle : Shuffle) {smallerDatasetSize n k : ℕ} {indices : List ℕ}
    {d : Dict ℕ ℕ} (hsmaller : smallerDatasetSize ≤ n)
    (hindices : indices.Perm (List.range smallerDatasetSize)) (hvalues : d.values = indices.take k)
    (hkeys : ∀ i ∈ d.keys, i < n) :
    ∃ l, fillGaps shuffle smallerDatasetSize n (indices.drop k) d = .ok l ∧
      l.Perm (List.range n) ∧ ∀ i ∈ d.keys, l[i]? = d.get? i := by
  have hnodup : indices.Nodup := hindices.nodup_iff.mpr List.nodup_range
  have hdrop : (indices.drop k).Nodup := hnodup.sublist (List.drop_sublist k indices)
  have hdisjoint : List.Disjoint (List.range' smallerDatasetSize (n - smallerDatasetSize))
      (indices.drop k) := by
    intro v hlarge hv
    have hsmall := hindices.mem_iff.mp (List.mem_of_mem_drop hv)
    rw [List.mem_range'_1] at hlarge
    rw [List.mem_range] at hsmall
    omega
  have hrange : List.range n = List.range smallerDatasetSize ++
      List.range' smallerDatasetSize (n - smallerDatasetSize) := by
    rw [List.range_eq_range', List.range_eq_range']
    have happend := @List.range'_append_1 0 smallerDatasetSize (n - smallerDatasetSize)
    rw [Nat.zero_add, Nat.add_sub_cancel' hsmaller] at happend
    exact happend.symm
  let pool := shuffle.order (List.range' smallerDatasetSize (n - smallerDatasetSize) ∪
    (indices.drop k).dedup)
  have hpool : pool.Perm (List.range' smallerDatasetSize (n - smallerDatasetSize) ++
      indices.drop k) := by
    refine (shuffle.perm _).trans (List.Perm.of_eq ?_)
    have hlarge : (List.range' smallerDatasetSize (n - smallerDatasetSize)).Nodup :=
      List.nodup_range'
    rw [hdrop.dedup, hdisjoint.union_eq, hlarge.dedup]
  have hall : (indices.take k ++ pool).Perm (List.range n) := by
    rw [hrange]
    have hfirst : (indices.take k ++ pool).Perm (indices.take k ++
        (List.range' smallerDatasetSize (n - smallerDatasetSize) ++ indices.drop k)) :=
      hpool.append_left _
    have hswap : (indices.take k ++ (List.range' smallerDatasetSize (n - smallerDatasetSize) ++
        indices.drop k)).Perm (indices.take k ++ (indices.drop k ++
          List.range' smallerDatasetSize (n - smallerDatasetSize))) :=
      List.perm_append_comm.append_left _
    refine hfirst.trans (hswap.trans ?_)
    rw [← List.append_assoc, List.take_append_drop]
    exact hindices.append_right _
  have hmapped : ((List.range n).filter (· ∈ d.keys)).Perm d.keys := by
    refine (List.perm_ext_iff_of_nodup (List.nodup_range.filter _) d.nodup_keys).mpr fun i => ?_
    simp only [List.mem_filter, List.mem_range, decide_eq_true_eq]
    exact ⟨And.right, fun hi => ⟨hkeys i hi, hi⟩⟩
  have hsplit : (d.keys ++ gaps d (List.range n)).Perm (List.range n) := by
    refine (hmapped.symm.append_right _).trans ?_
    have h := List.filter_append_perm (· ∈ d.keys) (List.range n)
    simpa [gaps] using h
  have hlength : (gaps d (List.range n)).length = pool.length := by
    have hgaps := hsplit.length_eq
    have hvals := hall.length_eq
    have hsame : d.keys.length = (indices.take k).length := by
      rw [← hvalues, Dict.length_values]
    rw [List.length_append] at hgaps hvals
    omega
  obtain ⟨d', rest, hfold, hentries⟩ := fillIndex_foldlM List.nodup_range hlength.le
  have hkeys' : d'.keys.Perm (List.range n) := by
    rw [Dict.keys, hentries, List.map_append, List.map_fst_zip (by simp [hlength])]
    exact hsplit
  have hvalues' : d'.values.Perm (List.range n) := by
    rw [Dict.values, hentries, List.map_append, List.map_snd_zip (by simp [hlength]),
      ← Dict.values, hvalues]
    exact ((List.reverse_perm pool).append_left _).trans hall
  obtain ⟨l, hl, hperm, hget⟩ := convertMappingToList_ok hkeys'
  refine ⟨l, ?_, hperm.trans hvalues', fun i hi => ?_⟩
  · have hfold' : (List.range n).foldlM fillIndex (d, shuffle.order
        (List.range' smallerDatasetSize (n - smallerDatasetSize) ∪ (indices.drop k).dedup)) =
        .ok (d', rest) := hfold
    simp only [fillGaps, hfold', ok_bind, hl]
  · rw [hget, Dict.get?_of_entries_append hentries hi]

end EntityService.Tasks.Permutation
