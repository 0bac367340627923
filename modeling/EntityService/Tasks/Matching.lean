import EntityService.Tasks.Permutation

/-! The permutations and the mask for groups that match the records of two datasets. -/
namespace EntityService.Tasks.Permutation
open Lib Service Database

/-- The group of a record of the first dataset and a record of the second one, in either order. -/
def Pairs (group : Group) (link : ℕ × ℕ) : Prop :=
  group = [(0, link.1), (1, link.2)] ∨ group = [(1, link.2), (0, link.1)]

/-- The groups match records of the first dataset with records of the second one. -/
structure Matching (n₁ n₂ : ℕ) (groups : List Group) : Prop where
  pairs : ∀ g ∈ groups, ∃ link, Pairs g link ∧ link.1 < n₁ ∧ link.2 < n₂
  disjoint : groups.Pairwise fun g h => ∀ r ∈ g, r ∉ h

theorem Pairs.mem_iff {g : Group} {link : ℕ × ℕ} (h : Pairs g link) {r : Service.Record} :
    r ∈ g ↔ r = (0, link.1) ∨ r = (1, link.2) := by
  rcases h with rfl | rfl
  · simp
  · simp [or_comm]

theorem Pairs.groupIndices_eq {g : Group} {link : ℕ × ℕ} (h : Pairs g link) :
    groupIndices g = .ok link := by
  obtain ⟨a, b⟩ := link
  rcases h with rfl | rfl <;> simp [groupIndices, Prod.Lex.toLex_le_toLex]

theorem exists_group {groups : List Group} {links : List (ℕ × ℕ)}
    (h : List.Forall₂ Pairs groups links) {link : ℕ × ℕ} (hmem : link ∈ links) :
    ∃ g ∈ groups, Pairs g link := by
  induction h with
  | nil => simp at hmem
  | cons hlink _ ih =>
    rcases List.mem_cons.mp hmem with rfl | hmem
    · exact ⟨_, List.mem_cons_self, hlink⟩
    · obtain ⟨g, hg, hp⟩ := ih hmem
      exact ⟨g, List.mem_cons_of_mem _ hg, hp⟩

theorem exists_link {groups : List Group} {links : List (ℕ × ℕ)}
    (h : List.Forall₂ Pairs groups links) {g : Group} (hmem : g ∈ groups) :
    ∃ link ∈ links, Pairs g link := by
  induction h with
  | nil => simp at hmem
  | cons hlink _ ih =>
    rcases List.mem_cons.mp hmem with rfl | hmem
    · exact ⟨_, List.mem_cons_self, hlink⟩
    · obtain ⟨link, hl, hp⟩ := ih hmem
      exact ⟨link, List.mem_cons_of_mem _ hl, hp⟩

theorem Matching.links {n₁ n₂ : ℕ} {groups : List Group} (h : Matching n₁ n₂ groups) :
    ∃ links, List.Forall₂ Pairs groups links ∧ (links.map Prod.fst).Nodup ∧
      (links.map Prod.snd).Nodup ∧ ∀ link ∈ links, link.1 < n₁ ∧ link.2 < n₂ := by
  obtain ⟨hpairs, hdisjoint⟩ := h
  induction groups with
  | nil => exact ⟨[], .nil, by simp⟩
  | cons g groups ih =>
    obtain ⟨hg, hdisjoint⟩ := List.pairwise_cons.mp hdisjoint
    obtain ⟨link, hlink, hbounds⟩ := hpairs g List.mem_cons_self
    obtain ⟨links, hall, hfst, hsnd, hlinks⟩ :=
      ih (fun g hg => hpairs g (List.mem_cons_of_mem _ hg)) hdisjoint
    have hother : ∀ l ∈ links, l.1 ≠ link.1 ∧ l.2 ≠ link.2 := by
      intro l hl
      obtain ⟨h', hh', hp⟩ := exists_group hall hl
      constructor
      · intro he
        refine hg h' hh' (0, link.1) (hlink.mem_iff.mpr (.inl rfl)) (hp.mem_iff.mpr (.inl ?_))
        rw [he]
      · intro he
        refine hg h' hh' (1, link.2) (hlink.mem_iff.mpr (.inr rfl)) (hp.mem_iff.mpr (.inr ?_))
        rw [he]
    refine ⟨link :: links, .cons hlink hall, ?_, ?_, ?_⟩
    · refine List.nodup_cons.mpr ⟨fun hmem => ?_, hfst⟩
      obtain ⟨l, hl, he⟩ := List.mem_map.mp hmem
      exact (hother l hl).1 he
    · refine List.nodup_cons.mpr ⟨fun hmem => ?_, hsnd⟩
      obtain ⟨l, hl, he⟩ := List.mem_map.mp hmem
      exact (hother l hl).2 he
    · intro l hl
      rcases List.mem_cons.mp hl with rfl | hl
      · exact hbounds
      · exact hlinks l hl

/-- Each group takes the next of the shuffled indexes. -/
theorem packGroup_foldlM {indices : List ℕ} {groups : List Group} {links : List (ℕ × ℕ)}
    (hall : List.Forall₂ Pairs groups links) {k : ℕ} (hfit : k + links.length ≤ indices.length)
    {p : Packed} (hfst : (links.map Prod.fst).Nodup) (hsnd : (links.map Prod.snd).Nodup)
    (ha : ∀ link ∈ links, link.1 ∉ p.aPermutation.keys)
    (hb : ∀ link ∈ links, link.2 ∉ p.bPermutation.keys) :
    ∃ p', (groups.zipIdx k).foldlM (packGroup indices) p = .ok p' ∧
      p'.aPermutation.entries = p.aPermutation.entries ++
        (links.map Prod.fst).zip ((indices.drop k).take links.length) ∧
      p'.bPermutation.entries = p.bPermutation.entries ++
        (links.map Prod.snd).zip ((indices.drop k).take links.length) ∧
      p'.mask = ((indices.drop k).take links.length).foldl (fun m i => m.set i true) p.mask := by
  induction hall generalizing k p with
  | nil => exact ⟨p, rfl, by simp⟩
  | @cons g link groups links hlink hall ih =>
    rw [List.length_cons] at hfit
    have hk : k < indices.length := by omega
    obtain ⟨hfst₀, hfst⟩ := List.nodup_cons.mp hfst
    obtain ⟨hsnd₀, hsnd⟩ := List.nodup_cons.mp hsnd
    have ha₀ := ha link List.mem_cons_self
    have hb₀ := hb link List.mem_cons_self
    have ha' : ∀ l ∈ links, l.1 ∉ (p.aPermutation.set link.1 indices[k]).keys := by
      intro l hl hmem
      rcases Dict.mem_keys_set.mp hmem with hmem | he
      · exact ha l (List.mem_cons_of_mem _ hl) hmem
      · exact hfst₀ (List.mem_map.mpr ⟨l, hl, he⟩)
    have hb' : ∀ l ∈ links, l.2 ∉ (p.bPermutation.set link.2 indices[k]).keys := by
      intro l hl hmem
      rcases Dict.mem_keys_set.mp hmem with hmem | he
      · exact hb l (List.mem_cons_of_mem _ hl) hmem
      · exact hsnd₀ (List.mem_map.mpr ⟨l, hl, he⟩)
    obtain ⟨p', hfold, haentries, hbentries, hmask⟩ := ih (k := k + 1) (by omega)
      (p := ⟨p.aPermutation.set link.1 indices[k], p.bPermutation.set link.2 indices[k],
        p.mask.set indices[k] true⟩) hfst hsnd ha' hb'
    have hstep : packGroup indices p (g, k) = .ok ⟨p.aPermutation.set link.1 indices[k],
        p.bPermutation.set link.2 indices[k], p.mask.set indices[k] true⟩ := by
      simp [packGroup, hlink.groupIndices_eq, List.getElem?_eq_getElem hk, orRaise]
    have htake : (indices.drop k).take (links.length + 1) =
        indices[k] :: (indices.drop (k + 1)).take links.length := by
      rw [List.drop_eq_getElem_cons hk, List.take_succ_cons]
    refine ⟨p', ?_, ?_, ?_, ?_⟩
    · rw [List.zipIdx_cons, List.foldlM_cons, hstep]
      exact hfold
    · rw [haentries, Dict.entries_set_of_not_mem _ ha₀, List.length_cons, htake, List.map_cons,
        List.zip_cons_cons, List.append_assoc]
      rfl
    · rw [hbentries, Dict.entries_set_of_not_mem _ hb₀, List.length_cons, htake, List.map_cons,
        List.zip_cons_cons, List.append_assoc]
      rfl
    · rw [hmask, List.length_cons, htake, List.foldl_cons]

theorem Pairs.unique {g : Group} {link link' : ℕ × ℕ} (h : Pairs g link) (h' : Pairs g link') :
    link = link' := by
  have he := h.groupIndices_eq.symm.trans h'.groupIndices_eq
  exact Except.ok.inj he

/-- What the two permutations and the mask say about the groups. -/
structure Permuted (n₁ n₂ : ℕ) (groups : List Group) (aPermutation bPermutation mask : List ℕ) :
    Prop where
  aPerm : aPermutation.Perm (List.range n₁)
  bPerm : bPermutation.Perm (List.range n₂)
  length : mask.length = min n₁ n₂
  included : ∀ p < min n₁ n₂, ∀ a b, aPermutation[a]? = some p → bPermutation[b]? = some p →
    (mask[p]? = some 1 ↔ ∃ g ∈ groups, Pairs g (a, b))
  excluded : ∀ p < min n₁ n₂, mask[p]? = some 0 → ∀ a b, aPermutation[a]? = some p →
    bPermutation[b]? = some p → ∀ g ∈ groups, (0, a) ∉ g ∧ (1, b) ∉ g

theorem mask_ok {smallerDatasetSize : ℕ} {packed : List ℕ}
    (hpacked : ∀ i ∈ packed, i < smallerDatasetSize) :
    ∃ mask, convertMappingToList (packed.foldl (fun m i => m.set i true)
        (Dict.ofList ((List.range smallerDatasetSize).map fun i => (i, false)))) = .ok mask ∧
      mask.length = smallerDatasetSize ∧
      ∀ p < smallerDatasetSize, mask[p]? = some (decide (p ∈ packed)) := by
  have hnodup : (((List.range smallerDatasetSize).map fun i => (i, false)).map Prod.fst).Nodup := by
    simpa [Function.comp_def] using List.nodup_range
  have hempty : ∀ p < smallerDatasetSize,
      (Dict.ofList ((List.range smallerDatasetSize).map fun i => (i, false))).get? p =
        some false := by
    intro p hp
    exact (Dict.get?_ofList hnodup).mpr (List.mem_map.mpr ⟨p, List.mem_range.mpr hp, rfl⟩)
  have hget : ∀ p < smallerDatasetSize, (packed.foldl (fun m i => m.set i true)
      (Dict.ofList ((List.range smallerDatasetSize).map fun i => (i, false)))).get? p =
        some (decide (p ∈ packed)) := by
    intro p hp
    rw [Dict.get?_foldl_set, hempty p hp]
    by_cases hmem : p ∈ packed <;> simp [hmem]
  have hkeys : (packed.foldl (fun m i => m.set i true) (Dict.ofList
      ((List.range smallerDatasetSize).map fun i => (i, false)))).keys.Perm
        (List.range smallerDatasetSize) := by
    refine (List.perm_ext_iff_of_nodup (Dict.nodup_keys _) List.nodup_range).mpr fun p => ?_
    rw [List.mem_range]
    refine ⟨fun hmem => ?_, fun hp => Dict.mem_keys_of_get? (hget p hp)⟩
    by_contra hp
    have hout : p ∉ packed := fun h => hp (hpacked p h)
    rw [← Dict.get?_isSome, Dict.get?_foldl_set, if_neg hout, Dict.get?_isSome,
      Dict.mem_keys_ofList] at hmem
    simp [hp] at hmem
  obtain ⟨mask, hmask, hperm, hall⟩ := convertMappingToList_ok hkeys
  refine ⟨mask, hmask, ?_, fun p hp => by rw [hall, hget p hp]⟩
  have hlength := hkeys.length_eq
  rw [List.length_range] at hlength
  rw [hperm.length_eq, Dict.length_values, hlength]

/-- In the permutation of a dataset no two records have one place. -/
theorem place_unique {l : List ℕ} {n i j p : ℕ} (h : l.Perm (List.range n))
    (hi : l[i]? = some p) (hj : l[j]? = some p) : i = j := by
  have hnodup : l.Nodup := h.nodup_iff.mpr List.nodup_range
  obtain ⟨hlt, _⟩ := List.getElem?_eq_some_iff.mp hi
  exact (List.getElem?_inj hlt hnodup).mp (hi.trans hj.symm)

/-- It is enough that the records of the groups are at the places that the mask includes. -/
theorem permuted_of_placed {n₁ n₂ : ℕ} {groups : List Group} {links : List (ℕ × ℕ)}
    (hall : List.Forall₂ Pairs groups links) {taken a b : List ℕ} {mask : List Bool}
    (hlength : taken.length = links.length) (ha : a.Perm (List.range n₁))
    (hb : b.Perm (List.range n₂)) (hmask : mask.length = min n₁ n₂)
    (hmaskGet : ∀ p < min n₁ n₂, mask[p]? = some (decide (p ∈ taken)))
    (hplaced : ∀ {k : ℕ} {link : ℕ × ℕ} {p : ℕ}, links[k]? = some link → taken[k]? = some p →
      a[link.1]? = some p ∧ b[link.2]? = some p) :
    Permuted n₁ n₂ groups a b (mask.map Bool.toNat) := by
  have hlinked : ∀ {link : ℕ × ℕ}, link ∈ links → ∃ p ∈ taken,
      a[link.1]? = some p ∧ b[link.2]? = some p := by
    intro link hlink
    obtain ⟨k, hk, rfl⟩ := List.getElem_of_mem hlink
    have hk' : k < taken.length := by omega
    exact ⟨taken[k], List.getElem_mem hk',
      hplaced (List.getElem?_eq_getElem hk) (List.getElem?_eq_getElem hk')⟩
  refine ⟨ha, hb, ?_, ?_, ?_⟩
  · rw [List.length_map, hmask]
  · intro p hp i j hi hj
    have hvalue : (mask.map Bool.toNat)[p]? = some 1 ↔ p ∈ taken := by
      rw [List.getElem?_map, hmaskGet p hp]
      by_cases hmem : p ∈ taken <;> simp [hmem]
    rw [hvalue]
    constructor
    · intro hmem
      obtain ⟨k, hk, rfl⟩ := List.getElem_of_mem hmem
      have hk' : k < links.length := by omega
      obtain ⟨hi', hj'⟩ := hplaced (List.getElem?_eq_getElem hk') (List.getElem?_eq_getElem hk)
      rw [place_unique ha hi hi', place_unique hb hj hj']
      exact exists_group hall (List.getElem_mem hk')
    · rintro ⟨g, hg, hpair⟩
      obtain ⟨link, hlink, hpair'⟩ := exists_link hall hg
      obtain rfl := hpair.unique hpair'
      obtain ⟨q, hq, hi', _⟩ := hlinked hlink
      obtain rfl : p = q := Option.some.inj (hi.symm.trans hi')
      exact hq
  · intro p hp hzero i j hi hj g hg
    have hout : p ∉ taken := by
      intro hmem
      rw [List.getElem?_map, hmaskGet p hp] at hzero
      simp [hmem] at hzero
    obtain ⟨link, hlink, hpair⟩ := exists_link hall hg
    obtain ⟨q, hq, hi', hj'⟩ := hlinked hlink
    constructor
    · intro hmem
      obtain rfl : i = link.1 := by simpa using hpair.mem_iff.mp hmem
      obtain rfl : p = q := Option.some.inj (hi.symm.trans hi')
      exact hout hq
    · intro hmem
      obtain rfl : j = link.2 := by simpa using hpair.mem_iff.mp hmem
      obtain rfl : p = q := Option.some.inj (hj.symm.trans hj')
      exact hout hq

/-- The pools never run dry, and the two permutations agree on the records of the groups. -/
theorem permuteMapping_ok (shuffles : Shuffles) {n₁ n₂ : ℕ} {groups : List Group}
    (h : Matching n₁ n₂ groups) : ∃ a b mask,
      permuteMapping shuffles n₁ n₂ groups = .ok (a, b, mask) ∧ Permuted n₁ n₂ groups a b mask := by
  obtain ⟨links, hall, hfst, hsnd, hbounds⟩ := h.links
  let indices := shuffles.newIndexes.order (List.range (min n₁ n₂))
  have hindices : indices.Perm (List.range (min n₁ n₂)) := shuffles.newIndexes.perm _
  have hcommon : groups.length = links.length := hall.length_eq
  have hfit : links.length ≤ indices.length := by
    have hfst' : (links.map Prod.fst).length ≤ (List.range n₁).length :=
      (hfst.subperm fun a ha => by
        obtain ⟨link, hl, rfl⟩ := List.mem_map.mp ha
        exact List.mem_range.mpr (hbounds link hl).1).length_le
    have hsnd' : (links.map Prod.snd).length ≤ (List.range n₂).length :=
      (hsnd.subperm fun b hb => by
        obtain ⟨link, hl, rfl⟩ := List.mem_map.mp hb
        exact List.mem_range.mpr (hbounds link hl).2).length_le
    rw [List.length_map, List.length_range] at hfst' hsnd'
    rw [hindices.length_eq, List.length_range]
    omega
  let taken := indices.take links.length
  have htaken : taken.length = links.length := by
    rw [List.length_take]
    omega
  have hfit₀ : 0 + links.length ≤ indices.length := by omega
  obtain ⟨packed, hpacked, haentries, hbentries, hmask⟩ :=
    packGroup_foldlM (p := ⟨.empty, .empty,
      Dict.ofList ((List.range (min n₁ n₂)).map fun i => (i, false))⟩) hall hfit₀ hfst hsnd
      (by simp) (by simp)
  rw [List.drop_zero] at haentries hbentries hmask
  have haentries : packed.aPermutation.entries = (links.map Prod.fst).zip taken := haentries
  have hbentries : packed.bPermutation.entries = (links.map Prod.snd).zip taken := hbentries
  have hakeys : ∀ i ∈ packed.aPermutation.keys, i < n₁ := by
    intro i hi
    rw [Dict.keys, haentries, List.map_fst_zip (by simp [htaken])] at hi
    obtain ⟨link, hl, rfl⟩ := List.mem_map.mp hi
    exact (hbounds link hl).1
  have hbkeys : ∀ i ∈ packed.bPermutation.keys, i < n₂ := by
    intro i hi
    rw [Dict.keys, hbentries, List.map_fst_zip (by simp [htaken])] at hi
    obtain ⟨link, hl, rfl⟩ := List.mem_map.mp hi
    exact (hbounds link hl).2
  have havalues : packed.aPermutation.values = indices.take groups.length := by
    rw [Dict.values, haentries, List.map_snd_zip (by simp [htaken]), hcommon]
  have hbvalues : packed.bPermutation.values = indices.take groups.length := by
    rw [Dict.values, hbentries, List.map_snd_zip (by simp [htaken]), hcommon]
  obtain ⟨a, ha, haperm, haget⟩ := fillGaps_ok shuffles.aValues (min_le_left n₁ n₂)
    hindices havalues hakeys
  obtain ⟨b, hb, hbperm, hbget⟩ := fillGaps_ok shuffles.bValues (min_le_right n₁ n₂)
    hindices hbvalues hbkeys
  have hsmall : ∀ i ∈ taken, i < min n₁ n₂ := fun i hi =>
    List.mem_range.mp (hindices.mem_iff.mp (List.mem_of_mem_take hi))
  obtain ⟨mask, hm, hlength, hmaskGet⟩ := mask_ok hsmall
  refine ⟨a, b, mask.map Bool.toNat, ?_,
    permuted_of_placed hall htaken haperm hbperm hlength hmaskGet ?_⟩
  · have hpacked' : groups.zipIdx.foldlM (packGroup (shuffles.newIndexes.order
        (List.range (min n₁ n₂)))) ⟨.empty, .empty,
          Dict.ofList ((List.range (min n₁ n₂)).map fun i => (i, false))⟩ = .ok packed := hpacked
    have hm' : convertMappingToList packed.mask = .ok mask := by
      rw [hmask]
      exact hm
    simp only [permuteMapping, hpacked', ok_bind]
    rw [ha, ok_bind, hb, ok_bind, hm', ok_bind]
    rfl
  · intro k link p hlink hp
    have hfirst : packed.aPermutation.get? link.1 = some p :=
      Dict.get?_of_entries_zip haentries (by rw [List.getElem?_map, hlink]; rfl) hp
    have hsecond : packed.bPermutation.get? link.2 = some p :=
      Dict.get?_of_entries_zip hbentries (by rw [List.getElem?_map, hlink]; rfl) hp
    rw [haget _ (Dict.mem_keys_of_get? hfirst), hbget _ (Dict.mem_keys_of_get? hsecond)]
    exact ⟨hfirst, hsecond⟩

theorem insertPermutation_ok {s : Storage} {runId : RunId} {dpId : DpId} {l : List ℕ}
    (hrun : s.RunExists runId) (hdp : dpId ∈ s.db.dataproviders.map DataproviderRow.id) :
    s.insertPermutation runId dpId l =
      .ok { s with permutations := s.permutations ++ [⟨dpId, runId, l⟩] } := by
  unfold Storage.insertPermutation
  rw [(ensure_eq_ok (a := ())).mpr ⟨hrun, hdp⟩]
  rfl

theorem mem_of_getDataproviderIds {s : Storage} {projectId : ProjectId} {dpId : DpId}
    (h : dpId ∈ s.getDataproviderIds projectId) :
    dpId ∈ s.db.dataproviders.map DataproviderRow.id := by
  unfold Storage.getDataproviderIds at h
  rw [(List.perm_insertionSort _ _).mem_iff] at h
  obtain ⟨d, hd, rfl⟩ := List.mem_map.mp h
  exact List.mem_map_of_mem (List.mem_of_mem_filter hd)

/-- The task saves permutations of the two datasets that agree on the records of the groups,
and the mask of the places where they agree. -/
theorem permuteMappingData_permuted (shuffles : Shuffles) {s : Storage} {projectId : ProjectId}
    {runId : RunId} {n₁ n₂ : ℕ} {groups : List Group} {dpA dpB : DpId} {dpIds : List DpId}
    (hgroups : s.getRunResult runId = .ok groups) (hmatching : Matching n₁ n₂ groups)
    (hproviders : s.getDataproviderIds projectId = dpA :: dpB :: dpIds)
    (hrun : s.RunExists runId) (hproject : projectId ∈ s.db.projects.map ProjectRow.projectId) :
    ∃ aPermutation bPermutation mask,
      permuteMappingData shuffles projectId runId n₁ n₂ s =
        ({ s with
            permutations := s.permutations ++
              [⟨dpA, runId, aPermutation⟩, ⟨dpB, runId, bPermutation⟩]
            permutationMasks := s.permutationMasks ++ [⟨projectId, runId, mask⟩] }, .ok ()) ∧
      Permuted n₁ n₂ groups aPermutation bPermutation mask := by
  obtain ⟨a, b, mask, hpermute, hpermuted⟩ := permuteMapping_ok shuffles hmatching
  refine ⟨a, b, mask, Action.atomic_of_ok ?_, hpermuted⟩
  have hdpA : dpA ∈ s.db.dataproviders.map DataproviderRow.id :=
    mem_of_getDataproviderIds (by rw [hproviders]; exact List.mem_cons_self)
  have hdpB : dpB ∈ s.db.dataproviders.map DataproviderRow.id :=
    mem_of_getDataproviderIds (by rw [hproviders]; simp)
  have hfirst := insertPermutation_ok (l := a) hrun hdpA
  have hsecond := insertPermutation_ok (l := b)
    (s := { s with permutations := s.permutations ++ [⟨dpA, runId, a⟩] }) hrun hdpB
  simp only [hgroups, hpermute, hproviders, ok_bind, List.getElem?_cons_zero,
    List.getElem?_cons_succ, orRaise, Option.elim_some, hfirst, hsecond]
  unfold Storage.insertPermutationMask
  rw [(ensure_eq_ok (a := ())).mpr ⟨hrun, hproject⟩, List.append_assoc]
  rfl

/-- Two providers with two and three records, of which a pair has been matched. -/
def matchedProject : Storage where
  db := {
    projects := [⟨"p", none, none, 2, .permutations, false, false⟩]
    dataproviders := [⟨1, "a", .done, "p"⟩, ⟨2, "b", .done, "p"⟩]
    uploads := [⟨1, "x", none, .ready, some 8, 2, 1⟩, ⟨2, "y", none, .ready, some 8, 3, 1⟩]
    blocks := []
    encodings := []
    encodingblocks := []
    nextBlockId := 0 }
  runs := Dict.empty.set "r" ⟨"p", .running, 3, .default, false⟩
  cache := Dict.empty
  accessTokens := Dict.empty.set "p" "t"
  runResults := [⟨"r", [[(1, 2), (0, 0)]]⟩]
  similarityScores := []
  permutations := []
  permutationMasks := []
  objects := Dict.empty

def reversal : Shuffle := ⟨List.reverse, List.reverse_perm⟩

theorem permuteMappingData_matchedProject : ∃ aPermutation bPermutation mask,
    permuteMappingData ⟨reversal, reversal, reversal⟩ "p" "r" 2 3 matchedProject =
      ({ matchedProject with
          permutations := matchedProject.permutations ++
            [⟨1, "r", aPermutation⟩, ⟨2, "r", bPermutation⟩]
          permutationMasks := matchedProject.permutationMasks ++ [⟨"p", "r", mask⟩] }, .ok ()) ∧
    Permuted 2 3 [[(1, 2), (0, 0)]] aPermutation bPermutation mask := by
  have hmatching : Matching 2 3 [[(1, 2), (0, 0)]] :=
    ⟨by simp [Pairs], by simp⟩
  have hproviders : matchedProject.getDataproviderIds "p" = [1, 2] := by decide
  exact permuteMappingData_permuted ⟨reversal, reversal, reversal⟩ rfl hmatching hproviders
    (by decide) (by decide)

example : permuteMapping ⟨reversal, reversal, reversal⟩ 2 3 [[(1, 2), (0, 0)]] =
    .ok ([1, 0], [2, 0, 1], [0, 1]) := by decide

end EntityService.Tasks.Permutation
