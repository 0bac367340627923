import EntityService.Tasks.Completeness

/-! The tasks of a run emit what the comparisons of their chunk pairs find. -/
namespace EntityService.Tasks.Similarity
open Lib

namespace DiceCoefficientAccelerated
variable {dice : Bytes → Bytes → ℚ} (anonlink : DiceCoefficientAccelerated dice) {call : ChunkPair}
  {datasets : List Bytes × List Bytes} {threshold : ℚ} {k : ℕ} {s : ℚ × ℕ × ℕ}

theorem mem_matching (hs : s ∈ anonlink.run call datasets threshold k) :
    s.2.2 ∈ matching dice datasets threshold s.2.1 := by
  have hindex := (anonlink.sound call datasets threshold k s hs).1
  apply (anonlink.best call datasets threshold k s.2.1 hindex).mem
  exact List.mem_map.mpr ⟨s, List.mem_filter.mpr ⟨hs, decide_eq_true rfl⟩, rfl⟩

/-- A match has indices of both datasets. -/
theorem index_lt (hs : s ∈ anonlink.run call datasets threshold k) :
    s.2.1 < datasets.1.length ∧ s.2.2 < datasets.2.length := by
  have hmatching := List.mem_filter.mp (anonlink.mem_matching hs)
  exact ⟨(anonlink.sound call datasets threshold k s hs).1, List.mem_range.mp hmatching.1⟩

theorem threshold_le (hs : s ∈ anonlink.run call datasets threshold k) :
    threshold ≤ similarity dice datasets s.2.1 s.2.2 :=
  of_decide_eq_true (List.mem_filter.mp (anonlink.mem_matching hs)).2

end DiceCoefficientAccelerated

section Stored
variable {db : Database} {dpIds : List DpId} {size : ℕ} {encodings : DpId → List Bytes}

def fetchedPair (db : Database) (encodings : DpId → List Bytes) (chunks : ChunkPair) :
    FetchedChunk × FetchedChunk :=
  (fetchedOf db encodings chunks.1, fetchedOf db encodings chunks.2)

namespace StoredDatasets
variable (h : StoredDatasets db dpIds size encodings) {so : SetOrder} {split : SplitToChunks}
  {chunkSizeAim : ℕ} {packages : List Package}
  (hscheduled : Scheduled so split db dpIds chunkSizeAim packages)
include h

theorem nodup_chunkIds {chunk : ChunkInfo} (hdp : chunk.dataproviderId ∈ dpIds) {name : BlockName}
    {count : ℤ} (hmem : (name, chunk.blockId, count) ∈ db.getBlockMetadata chunk.dataproviderId) :
    (chunkIds db chunk).Nodup := by
  have hnodup := (h.blocks _ hdp _ hmem).2.1
  exact (hnodup.sublist (List.drop_sublist _ _)).sublist (List.take_sublist _ _)

include hscheduled

/-- A package with several chunk pairs is fetched in one go. -/
theorem getEncodingChunks_eq {package : Package} (hpackage : package ∈ packages)
    (hlong : 1 < package.length) :
    getEncodingChunks db package size = .ok (package.map (fetchedPair db encodings)) := by
  have hside : ∀ c ∈ package.flatMap (fun pair => [pair.1, pair.2]),
      c.dataproviderId ∈ dpIds ∧ chunkIds db c ≠ [] ∧
        chunkIds db c = blockEntityIds db c.dataproviderId c.blockId := by
    intro c hc
    obtain ⟨pair, hpair, hc⟩ := List.mem_flatMap.mp hc
    exact h.chunkIds_of_long hscheduled hpackage hlong hpair c hc
  obtain ⟨fetched, hfetched⟩ : ∃ fetched, getEncodingChunks db package size = .ok fetched := by
    apply getEncodingChunks_succeeds
    intro c hc
    obtain ⟨hdp, hne, hids⟩ := hside c hc
    exact ⟨⟨_, h.rows _ hdp⟩, hids ▸ hne⟩
  have hchunk : ∀ pair ∈ fetched, ∀ chunk ∈ [pair.1, pair.2],
      ∀ c ∈ package.flatMap (fun pair => [pair.1, pair.2]), chunk.chunkInfo = c →
        chunk = fetchedOf db encodings c := by
    intro pair hpair chunk hmem c hc hinfo
    obtain ⟨hdp, -, hids⟩ := hside c hc
    have hrow := of_getEncodingChunks (h.rows _ hdp) hfetched hpair hmem
      (congrArg ChunkInfo.dataproviderId hinfo)
    have hentityIds : chunk.entityIds = chunkIds db c := by
      rw [hids, hrow.1, hinfo]
    have hencodings : chunk.encodings = chunkEncodings db encodings c := by
      rw [hrow.2, hentityIds, chunkEncodings]
      apply List.map_congr_left
      intro i hi
      exact congrArg Prod.snd (h.record_eq hdp (h.lt_of_mem_chunkIds hdp hi))
    rw [fetchedOf, ← hentityIds, ← hencodings, ← hinfo]
  have hrun := hfetched
  unfold getEncodingChunks at hrun
  obtain ⟨blocks, hblocks, hfetch⟩ := bind_eq_ok.mp hrun
  have hpure : ∀ pair ∈ package, (do
      let left ← fetchedChunk (Dict.ofList blocks.flatten) pair.1
      let right ← fetchedChunk (Dict.ofList blocks.flatten) pair.2
      return (left, right)) = pure (fetchedPair db encodings pair) := by
    intro pair hpair
    obtain ⟨fetchedBoth, hmem, hboth⟩ := (mapM_mem hfetch).2 pair hpair
    have hall := hboth
    obtain ⟨left, hleft, hall⟩ := bind_eq_ok.mp hall
    obtain ⟨right, hright, hall⟩ := bind_eq_ok.mp hall
    obtain rfl := Except.ok.inj hall
    have hleft := hchunk _ hmem left (by simp) pair.1
      (List.mem_flatMap.mpr ⟨pair, hpair, by simp⟩) (fetchedChunk_eq_ok.mp hleft).1
    have hright := hchunk _ hmem right (by simp) pair.2
      (List.mem_flatMap.mpr ⟨pair, hpair, by simp⟩) (fetchedChunk_eq_ok.mp hright).1
    rw [hboth, hleft, hright]
    rfl
  unfold getEncodingChunks
  rw [hblocks, ok_bind]
  exact mapM_eq_pure_map hpure

theorem packageWithEncodingData_eq {package : Package} (hpackage : package ∈ packages)
    (hne : package ≠ [])
    (hids : ∀ chunks ∈ package, chunkIds db chunks.1 ≠ [] ∧ chunkIds db chunks.2 ≠ []) :
    packageWithEncodingData db size package = .ok (package.map (fetchedPair db encodings)) := by
  unfold packageWithEncodingData
  split_ifs with hlong
  · exact h.getEncodingChunks_eq hscheduled hpackage hlong
  · have hpos := List.length_pos_iff.mpr hne
    obtain ⟨chunks, hchunks⟩ := List.length_eq_one_iff.mp (show package.length = 1 by omega)
    have hmem : chunks ∈ package := by simp [hchunks]
    obtain ⟨hids1, hids2⟩ := hids chunks hmem
    obtain ⟨hlt, hi, hj, name, count1, count2, hmem1, hmem2, hpiece⟩ :=
      (h.mem_scheduled hscheduled).mp ⟨package, hpackage, hmem⟩
    have hdp1 := List.mem_of_getElem? hi
    have hdp2 := List.mem_of_getElem? hj
    rw [hchunks]
    simp only [List.head?_cons, orRaise, Option.elim_some, ok_bind]
    rw [h.fetchSingleChunk_eq hdp1 (h.nodup_chunkIds hdp1 hmem1), if_neg hids1,
      h.fetchSingleChunk_eq hdp2 (h.nodup_chunkIds hdp2 hmem2), if_neg hids2]
    rfl

end StoredDatasets

section Task
variable {dice : Bytes → Bytes → ℚ} (anonlink : DiceCoefficientAccelerated dice) {threshold : ℚ}

theorem length_chunkEncodings (chunk : ChunkInfo) :
    (chunkEncodings db encodings chunk).length = (chunkIds db chunk).length := List.length_map _

theorem not_chunkEmits_of_empty {chunks : ChunkPair} {pair : RecordId × RecordId}
    (hempty : chunkIds db chunks.1 = [] ∨ chunkIds db chunks.2 = []) :
    ¬ ChunkEmits anonlink db encodings threshold chunks pair := by
  rintro ⟨s, _, _, _, hleft, hright⟩
  rcases hempty with hnil | hnil
  · rw [hnil] at hleft
    cases hleft
  · rw [hnil] at hright
    cases hright

theorem compareChunks_ok (encodings : DpId → List Bytes) (threshold : ℚ) {chunks : ChunkPair}
    (hne1 : chunkIds db chunks.1 ≠ []) (hne2 : chunkIds db chunks.2 ≠ []) :
    ∃ r, compareChunks anonlink threshold (fetchedPair db encodings chunks) = .ok r ∧
      ∀ pair, pair ∈ r.candidatePairs ↔
        ChunkEmits anonlink db encodings threshold chunks pair := by
  have hpos1 := List.length_pos_iff.mpr hne1
  have hpos2 := List.length_pos_iff.mpr hne2
  let results := anonlink.run chunks
    (chunkEncodings db encodings chunks.1, chunkEncodings db encodings chunks.2) threshold
    (min (chunkIds db chunks.1).length (chunkIds db chunks.2).length)
  let withIds := fun s : ℚ × ℕ × ℕ => do
    let recIs0 ← orRaise (chunkIds db chunks.1)[s.2.1]? Error.indexError
    let recIs1 ← orRaise (chunkIds db chunks.2)[s.2.2]? Error.indexError
    return (s.1, recIs0, recIs1)
  have hwithIds : ∀ s x, withIds s = .ok x ↔ s.1 = x.1 ∧
      (chunkIds db chunks.1)[s.2.1]? = some x.2.1 ∧
      (chunkIds db chunks.2)[s.2.2]? = some x.2.2 := by
    rintro s ⟨sim, i, j⟩
    simp only [withIds, bind_eq_ok, orRaise_eq_ok, pure_eq_ok, Except.ok.injEq, Prod.mk.injEq]
    constructor
    · rintro ⟨_, hi, _, hj, hsim, hleft, hright⟩
      exact ⟨hsim, hleft ▸ hi, hright ▸ hj⟩
    · rintro ⟨hsim, hi, hj⟩
      exact ⟨i, hi, j, hj, hsim, rfl, rfl⟩
  obtain ⟨sims, hsims⟩ : ∃ sims, results.mapM withIds = .ok sims := by
    apply mapM_succeeds
    intro s hs
    obtain ⟨hi, hj⟩ := anonlink.index_lt hs
    simp only [length_chunkEncodings] at hi hj
    exact ⟨(s.1, (chunkIds db chunks.1)[s.2.1], (chunkIds db chunks.2)[s.2.2]),
      (hwithIds _ _).mpr ⟨rfl, List.getElem?_eq_getElem hi, List.getElem?_eq_getElem hj⟩⟩
  refine ⟨⟨sims, chunks.1.datasetIndex, chunks.2.datasetIndex⟩, ?_, ?_⟩
  · have hrun : compareChunks anonlink threshold (fetchedPair db encodings chunks) = do
        ensure (0 < (chunkEncodings db encodings chunks.1).length) Error.assertionError
        ensure (0 < (chunkEncodings db encodings chunks.2).length) Error.assertionError
        let sims ← (anonlink.run chunks
          (chunkEncodings db encodings chunks.1, chunkEncodings db encodings chunks.2) threshold
          (min (chunkEncodings db encodings chunks.1).length
            (chunkEncodings db encodings chunks.2).length)).mapM withIds
        return ⟨sims, chunks.1.datasetIndex, chunks.2.datasetIndex⟩ := rfl
    rw [hrun, length_chunkEncodings, length_chunkEncodings, ensure, if_pos hpos1, ok_bind, ensure,
      if_pos hpos2, ok_bind]
    change (results.mapM withIds >>= _) = _
    rw [hsims]
    rfl
  · rintro ⟨⟨i0, i⟩, j0, j⟩
    obtain ⟨hfrom, hto⟩ := mapM_mem hsims
    simp only [SimResult.candidatePairs, List.mem_map, ChunkEmits, Prod.mk.injEq]
    constructor
    · rintro ⟨x, hx, ⟨hi0, hi⟩, hj0, hj⟩
      obtain ⟨s, hs, hok⟩ := hfrom x hx
      obtain ⟨_, hleft, hright⟩ := (hwithIds s x).mp hok
      exact ⟨s, hs, hi0.symm, hj0.symm, hi ▸ hleft, hj ▸ hright⟩
    · rintro ⟨s, hs, hi0, hj0, hleft, hright⟩
      obtain ⟨x, hx, hok⟩ := hto s hs
      obtain ⟨_, hleft', hright'⟩ := (hwithIds s x).mp hok
      have hi := Option.some.inj (hleft'.symm.trans hleft)
      have hj := Option.some.inj (hright'.symm.trans hright)
      exact ⟨x, hx, ⟨hi0.symm, hi⟩, hj0.symm, hj⟩

section Scheduled
variable (h : StoredDatasets db dpIds size encodings) {so : SetOrder} {split : SplitToChunks}
  {chunkSizeAim : ℕ} {packages : List Package}
  (hscheduled : Scheduled so split db dpIds chunkSizeAim packages) {package : Package}
  (hpackage : package ∈ packages) {pair : RecordId × RecordId}
include h hscheduled hpackage

theorem emits_iff_of_records
    (hids : ∀ chunks ∈ package, chunkIds db chunks.1 ≠ [] ∧ chunkIds db chunks.2 ≠ []) :
    Emits anonlink db threshold size package pair ↔
      ∃ chunks ∈ package, ChunkEmits anonlink db encodings threshold chunks pair := by
  by_cases hne : package = []
  · rw [hne]
    simp [Emits, computeSimilarities, packageWithEncodingData, orRaise]
  have hfetch := h.packageWithEncodingData_eq hscheduled hpackage hne hids
  have hcompare : ∀ chunks ∈ package, ∃ r,
      compareChunks anonlink threshold (fetchedPair db encodings chunks) = .ok r ∧
        (pair ∈ r.candidatePairs ↔ ChunkEmits anonlink db encodings threshold chunks pair) := by
    intro chunks hchunks
    obtain ⟨hne1, hne2⟩ := hids chunks hchunks
    obtain ⟨r, hr, hpairs⟩ := compareChunks_ok anonlink encodings threshold hne1 hne2
    exact ⟨r, hr, hpairs pair⟩
  obtain ⟨results, hresults⟩ : ∃ results, package.mapM (fun chunks =>
      compareChunks anonlink threshold (fetchedPair db encodings chunks)) = .ok results := by
    apply mapM_succeeds
    intro chunks hchunks
    obtain ⟨r, hr, _⟩ := hcompare chunks hchunks
    exact ⟨r, hr⟩
  have hrun : computeSimilarities anonlink db threshold size package = .ok results := by
    rw [computeSimilarities, hfetch, ok_bind, List.mapM_map]
    exact hresults
  obtain ⟨hfrom, hto⟩ := mapM_mem hresults
  constructor
  · rintro ⟨results', hresults', r, hr, hpair⟩
    obtain rfl := Except.ok.inj (hrun.symm.trans hresults')
    obtain ⟨chunks, hchunks, hok⟩ := hfrom r hr
    obtain ⟨r', hr', hfinds⟩ := hcompare chunks hchunks
    rw [← Except.ok.inj (hok.symm.trans hr')] at hfinds
    exact ⟨chunks, hchunks, hfinds.mp hpair⟩
  · rintro ⟨chunks, hchunks, hfound⟩
    obtain ⟨r, hr, hok⟩ := hto chunks hchunks
    obtain ⟨r', hr', hfinds⟩ := hcompare chunks hchunks
    rw [← Except.ok.inj (hok.symm.trans hr')] at hfinds
    exact ⟨results, hrun, r, hr, hfinds.mpr hfound⟩

/-- A chunk without records is in a package of one chunk pair, and its task raises. -/
theorem only_of_empty (threshold : ℚ) {chunks : ChunkPair} (hchunks : chunks ∈ package)
    (hempty : chunkIds db chunks.1 = [] ∨ chunkIds db chunks.2 = []) :
    package = [chunks] ∧ ∀ results,
      computeSimilarities anonlink db threshold size package ≠ .ok results := by
  have hshort : ¬ 1 < package.length := by
    intro hlong
    have hall := h.chunkIds_of_long hscheduled hpackage hlong hchunks
    have hne1 := (hall chunks.1 (by simp)).2.1
    have hne2 := (hall chunks.2 (by simp)).2.1
    rcases hempty with hnil | hnil
    · exact hne1 hnil
    · exact hne2 hnil
  have hpos := List.length_pos_of_mem hchunks
  obtain ⟨only, honly⟩ := List.length_eq_one_iff.mp (show package.length = 1 by omega)
  have hsame : chunks = only := by
    rw [honly] at hchunks
    exact List.mem_singleton.mp hchunks
  obtain ⟨_, hi, hj, name, count1, count2, hmem1, hmem2, _⟩ :=
    (h.mem_scheduled hscheduled).mp ⟨package, hpackage, hchunks⟩
  have hdp1 := List.mem_of_getElem? hi
  have hdp2 := List.mem_of_getElem? hj
  refine ⟨hsame ▸ honly, fun results hresults => ?_⟩
  obtain ⟨fetched, hfetched, _⟩ := bind_eq_ok.mp hresults
  rw [packageWithEncodingData, if_neg hshort, honly, ← hsame] at hfetched
  simp only [List.head?_cons, orRaise, Option.elim_some, ok_bind] at hfetched
  obtain ⟨chunk1, hchunk1, hfetched⟩ := bind_eq_ok.mp hfetched
  obtain ⟨chunk2, hchunk2, hfetched⟩ := bind_eq_ok.mp hfetched
  rw [h.fetchSingleChunk_eq hdp1 (h.nodup_chunkIds hdp1 hmem1)] at hchunk1
  rw [h.fetchSingleChunk_eq hdp2 (h.nodup_chunkIds hdp2 hmem2)] at hchunk2
  rcases hempty with hnil | hnil
  · rw [if_pos hnil] at hchunk1
    cases hchunk1
  · rw [if_pos hnil] at hchunk2
    cases hchunk2

/-- A task emits what the comparisons of its chunk pairs find. -/
theorem emits_iff : Emits anonlink db threshold size package pair ↔
    ∃ chunks ∈ package, ChunkEmits anonlink db encodings threshold chunks pair := by
  by_cases hids : ∀ chunks ∈ package, chunkIds db chunks.1 ≠ [] ∧ chunkIds db chunks.2 ≠ []
  · exact emits_iff_of_records anonlink h hscheduled hpackage hids
  · simp only [not_forall] at hids
    obtain ⟨chunks, hchunks, hnot⟩ := hids
    have hempty : chunkIds db chunks.1 = [] ∨ chunkIds db chunks.2 = [] := by
      by_contra hboth
      rw [not_or] at hboth
      exact hnot hboth
    obtain ⟨honly, hraises⟩ :=
      only_of_empty anonlink h hscheduled hpackage threshold hchunks hempty
    constructor
    · rintro ⟨results, hresults, _⟩
      exact absurd hresults (hraises results)
    · rintro ⟨other, hother, hfound⟩
      rw [honly, List.mem_singleton] at hother
      rw [hother] at hfound
      exact absurd hfound (not_chunkEmits_of_empty anonlink hempty)

end Scheduled

/-- The packages of a schedule emit what the comparisons of its chunk pairs find. -/
theorem scheduled_emits_iff (h : StoredDatasets db dpIds size encodings) {so : SetOrder}
    {split : SplitToChunks} {chunkSizeAim : ℕ} {packages : List Package}
    (hscheduled : Scheduled so split db dpIds chunkSizeAim packages)
    {pair : RecordId × RecordId} :
    (∃ package ∈ packages, Emits anonlink db threshold size package pair) ↔
      ∃ chunks, OfPiece split db dpIds chunkSizeAim chunks ∧
        ChunkEmits anonlink db encodings threshold chunks pair := by
  constructor
  · rintro ⟨package, hpackage, hemits⟩
    obtain ⟨chunks, hchunks, hfound⟩ := (emits_iff anonlink h hscheduled hpackage).mp hemits
    exact ⟨chunks, (h.mem_scheduled hscheduled).mp ⟨package, hpackage, hchunks⟩, hfound⟩
  · rintro ⟨chunks, hpiece, hfound⟩
    obtain ⟨package, hpackage, hchunks⟩ := (h.mem_scheduled hscheduled).mpr hpiece
    exact ⟨package, hpackage,
      (emits_iff anonlink h hscheduled hpackage).mpr ⟨chunks, hchunks, hfound⟩⟩

end Task
end Stored
end EntityService.Tasks.Similarity
