import EntityService.Tasks.CutOff
import EntityService.Tasks.PackageFiles
import EntityService.Views.Scores

/-! The score file of a run. It has the pairs of records that share a block and are similar, with
their similarities, and does not depend on the order in which the packages were compared. -/
namespace EntityService.Tasks.ScoreFile
open Lib Aggregation Similarity PackageResults Views

/-- `anonlink.similarities.dice_coefficient_accelerated` for doubles with given values: of the most
similar records of the second dataset that reach the threshold, at most `k` for each record of the
first. -/
structure DiceDoubles {σ : Type} [LinearOrder σ] (value : σ ↪o ℚ) (dice : Bytes → Bytes → ℚ)
    extends SimilarityFunction σ where
  sound : ∀ call datasets threshold k sims, run call datasets threshold k = .ok sims →
    ∀ s ∈ sims, value s.1 = similarity dice datasets s.2.1 s.2.2
  best : ∀ call datasets threshold k sims, run call datasets threshold k = .ok sims →
    ∀ i < datasets.1.length,
      MostSimilar (similarity dice datasets i) k (matching dice datasets (value threshold) i)
        ((sims.filter fun s => s.2.1 = i).map fun s => s.2.2)

section Pairs
variable {σ : Type}

def recordsOf (c : CandidatePair σ) : RecordId × RecordId :=
  ((c.dsetI0.toNat, c.recI0.toNat), (c.dsetI1.toNat, c.recI1.toNat))

variable [LinearOrder σ] (value : σ ↪o ℚ) (dice : Bytes → Bytes → ℚ) (db : Database)
  (dpIds : List DpId) (encodings : DpId → List Bytes) (threshold : σ)

/-- The records of the pair qualify, and its similarity is theirs. -/
structure Correct (c : CandidatePair σ) : Prop where
  qualifies : Qualifies dice db dpIds encodings (value threshold) (recordsOf c)
  similarity : ∀ dp1 dp2, dpIds[c.dsetI0.toNat]? = some dp1 → dpIds[c.dsetI1.toNat]? = some dp2 →
    value c.sim = dice (encodingOf encodings dp1 c.recI0.toNat)
      (encodingOf encodings dp2 c.recI1.toNat)

end Pairs

section Scheduled
variable {σ : Type} [LinearOrder σ] {value : σ ↪o ℚ} {dice : Bytes → Bytes → ℚ}
  {anonlink : DiceDoubles value dice} {db : Database} {dpIds : List DpId} {size : ℕ}
  {encodings : DpId → List Bytes} {threshold : σ} {so : SetOrder} {split : SplitToChunks}
  {chunkSizeAim : ℕ} {packages : List Package} {package : Package} {chunks : ChunkPair}
  (h : StoredDatasets db dpIds size encodings)
  (hscheduled : Scheduled so split db dpIds chunkSizeAim packages)
  (hpackage : package ∈ packages) (hchunks : chunks ∈ package)
include h hscheduled hpackage hchunks

theorem storedOnce_of_scheduled : ∀ chunk ∈ [chunks.1, chunks.2],
    chunk.dataproviderId ∈ dpIds ∧ StoredOnce db size encodings chunk ∧
      recordIds db package chunk = chunkIds db chunk := by
  obtain ⟨-, hi, hj, name, count1, count2, hmem1, hmem2, -⟩ :=
    (h.mem_scheduled hscheduled).mp ⟨package, hpackage, hchunks⟩
  have hdp1 := List.mem_of_getElem? hi
  have hdp2 := List.mem_of_getElem? hj
  have hids : ∀ chunk ∈ [chunks.1, chunks.2],
      recordIds db package chunk = chunkIds db chunk := by
    intro chunk hchunk
    unfold recordIds
    split_ifs with hlong
    · exact (h.chunkIds_of_long hscheduled hpackage hlong hchunks chunk hchunk).2.2.symm
    · rfl
  intro chunk hchunk
  refine ⟨?_, ?_, hids chunk hchunk⟩
  · rcases List.mem_cons.mp hchunk with rfl | hchunk
    · exact hdp1
    · rw [List.mem_singleton.mp hchunk]
      exact hdp2
  · rcases List.mem_cons.mp hchunk with rfl | hchunk
    · exact ⟨h.rows _ hdp1, (h.blocks _ hdp1 _ hmem1).2.1⟩
    · rw [List.mem_singleton.mp hchunk]
      exact ⟨h.rows _ hdp2, (h.blocks _ hdp2 _ hmem2).2.1⟩

theorem runOn_of_scheduled (anonlink : SimilarityFunction σ) (threshold : σ) :
    runOn db size encodings anonlink threshold package chunks =
      anonlink.run chunks (chunkDatasets db encodings chunks) threshold
        (min (chunkIds db chunks.1).length (chunkIds db chunks.2).length) := by
  have hside := storedOnce_of_scheduled h hscheduled hpackage hchunks
  have hencodings : ∀ chunk ∈ [chunks.1, chunks.2],
      storedEncodings db size encodings package chunk = chunkEncodings db encodings chunk := by
    intro chunk hchunk
    obtain ⟨hdp, -, hids⟩ := hside chunk hchunk
    rw [storedEncodings, hids, chunkEncodings]
    apply List.map_congr_left
    intro i hi
    exact congrArg Prod.snd (h.record_eq hdp (h.lt_of_mem_chunkIds hdp hi))
  rw [runOn, hencodings chunks.1 (by simp), hencodings chunks.2 (by simp),
    (hside chunks.1 (by simp)).2.2, (hside chunks.2 (by simp)).2.2]
  rfl

theorem mem_foundPairs_iff {sims : List (σ × ℕ × ℕ)}
    (hrun : runOn db size encodings anonlink.toSimilarityFunction threshold package chunks =
      .ok sims) {c : CandidatePair σ} :
    c ∈ foundPairs db size encodings anonlink.toSimilarityFunction threshold package chunks ↔
      ∃ s ∈ sims, ∃ i j, (chunkIds db chunks.1)[s.2.1]? = some i ∧
        (chunkIds db chunks.2)[s.2.2]? = some j ∧
        c = ⟨s.1, .ofNat chunks.1.datasetIndex, .ofNat chunks.2.datasetIndex, .ofNat i,
          .ofNat j⟩ := by
  have hside := storedOnce_of_scheduled h hscheduled hpackage hchunks
  have hids1 := (hside chunks.1 (by simp)).2.2
  have hids2 := (hside chunks.2 (by simp)).2.2
  have hindex : ∀ s ∈ sims, s.2.1 < (chunkIds db chunks.1).length ∧
      s.2.2 < (chunkIds db chunks.2).length := by
    intro s hs
    rw [runOn_of_scheduled h hscheduled hpackage hchunks] at hrun
    have hlt := anonlink.index_lt _ _ _ _ _ hrun s hs
    rwa [chunkDatasets, length_chunkEncodings, length_chunkEncodings] at hlt
  unfold foundPairs foundPair
  rw [hrun, hids1, hids2]
  dsimp only
  rw [List.mem_map]
  constructor
  · rintro ⟨s, hs, rfl⟩
    obtain ⟨hi, hj⟩ := hindex s hs
    refine ⟨s, hs, _, _, List.getElem?_eq_getElem hi, List.getElem?_eq_getElem hj, ?_⟩
    rw [List.getD_eq_getElem?_getD, List.getD_eq_getElem?_getD, List.getElem?_eq_getElem hi,
      List.getElem?_eq_getElem hj]
    rfl
  · rintro ⟨s, hs, i, j, hi, hj, rfl⟩
    refine ⟨s, hs, ?_⟩
    rw [List.getD_eq_getElem?_getD, List.getD_eq_getElem?_getD, hi, hj]
    rfl

/-- The ids of the records of a chunk are unsigned integers. -/
theorem toNat_record {chunk : ChunkInfo} (hchunk : chunk ∈ [chunks.1, chunks.2]) {a i : ℕ}
    (hi : (chunkIds db chunk)[a]? = some i) : (UInt32.ofNat i).toNat = i := by
  obtain ⟨hdp, -, -⟩ := storedOnce_of_scheduled h hscheduled hpackage hchunks chunk hchunk
  have hlt := h.lt_of_mem_chunkIds hdp (List.mem_of_getElem? hi)
  exact UInt32.toNat_ofNat_of_lt' (hlt.trans_le (h.rows _ hdp).length_le)

theorem correct_of_mem_foundPairs {sims : List (σ × ℕ × ℕ)}
    (hrun : runOn db size encodings anonlink.toSimilarityFunction threshold package chunks =
      .ok sims)
    (hindex : sims ≠ [] → chunks.1.datasetIndex < 2 ^ 32 ∧ chunks.2.datasetIndex < 2 ^ 32)
    {c : CandidatePair σ}
    (hc : c ∈ foundPairs db size encodings anonlink.toSimilarityFunction threshold package
      chunks) : Correct value dice db dpIds encodings threshold c := by
  obtain ⟨s, hs, i, j, hi, hj, rfl⟩ :=
    (mem_foundPairs_iff h hscheduled hpackage hchunks hrun).mp hc
  obtain ⟨hindex1, hindex2⟩ := hindex (List.ne_nil_of_mem hs)
  have hrun' := runOn_of_scheduled h hscheduled hpackage hchunks anonlink.toSimilarityFunction
    threshold
  rw [hrun] at hrun'
  have hsim : similarity dice (chunkDatasets db encodings chunks) s.2.1 s.2.2 = _ :=
    similarity_chunkDatasets dice encodings hi hj
  have hvalue := anonlink.sound _ _ _ _ _ hrun'.symm s hs
  rw [hsim] at hvalue
  have hmatching : s.2.2 ∈ matching dice (chunkDatasets db encodings chunks) (value threshold)
      s.2.1 := by
    have hlt := (anonlink.index_lt _ _ _ _ _ hrun'.symm s hs).1
    apply (anonlink.best _ _ _ _ _ hrun'.symm s.2.1 hlt).mem
    exact List.mem_map.mpr ⟨s, List.mem_filter.mpr ⟨hs, decide_eq_true rfl⟩, rfl⟩
  have hthreshold := of_decide_eq_true (List.mem_filter.mp hmatching).2
  rw [hsim] at hthreshold
  have hrecords : recordsOf (⟨s.1, .ofNat chunks.1.datasetIndex, .ofNat chunks.2.datasetIndex,
      .ofNat i, .ofNat j⟩ : CandidatePair σ) =
        ((chunks.1.datasetIndex, i), (chunks.2.datasetIndex, j)) := by
    simp only [recordsOf, UInt32.toNat_ofNat_of_lt' hindex1, UInt32.toNat_ofNat_of_lt' hindex2,
      toNat_record h hscheduled hpackage hchunks (by simp) hi,
      toNat_record h hscheduled hpackage hchunks (by simp) hj]
  obtain ⟨hlt, hdp1, hdp2, name, count1, count2, hmem1, hmem2, -⟩ :=
    (h.mem_scheduled hscheduled).mp ⟨package, hpackage, hchunks⟩
  have hi' := mem_block_of_mem_chunkIds (List.mem_of_getElem? hi)
  have hj' := mem_block_of_mem_chunkIds (List.mem_of_getElem? hj)
  constructor
  · rw [hrecords]
    exact ⟨hlt, _, _, hdp1, hdp2, ⟨name, ⟨_, _, hmem1, hi'⟩, _, _, hmem2, hj'⟩, hthreshold⟩
  · intro dp1 dp2 hdp1' hdp2'
    have hfst := congrArg (fun r => (r.1.1, r.1.2)) hrecords
    have hsnd := congrArg (fun r => (r.2.1, r.2.2)) hrecords
    simp only [recordsOf, Prod.mk.injEq] at hfst hsnd
    rw [hfst.1, hdp1] at hdp1'
    rw [hsnd.1, hdp2] at hdp2'
    rw [hfst.2, hsnd.2, ← Option.some.inj hdp1', ← Option.some.inj hdp2']
    exact hvalue

theorem exists_mem_foundPairs {sims : List (σ × ℕ × ℕ)}
    (hrun : runOn db size encodings anonlink.toSimilarityFunction threshold package chunks =
      .ok sims)
    (hindex : sims ≠ [] → chunks.1.datasetIndex < 2 ^ 32 ∧ chunks.2.datasetIndex < 2 ^ 32)
    {i j : ℕ} (hi : i ∈ chunkIds db chunks.1) (hj : j ∈ chunkIds db chunks.2)
    (hsimilar : value threshold ≤ dice (encodingOf encodings chunks.1.dataproviderId i)
      (encodingOf encodings chunks.2.dataproviderId j))
    (hcount : ((chunkIds db chunks.2).countP fun j' =>
        dice (encodingOf encodings chunks.1.dataproviderId i)
          (encodingOf encodings chunks.2.dataproviderId j) ≤
        dice (encodingOf encodings chunks.1.dataproviderId i)
          (encodingOf encodings chunks.2.dataproviderId j')) ≤
      min (chunkIds db chunks.1).length (chunkIds db chunks.2).length) :
    ∃ c ∈ foundPairs db size encodings anonlink.toSimilarityFunction threshold package chunks,
      recordsOf c = ((chunks.1.datasetIndex, i), (chunks.2.datasetIndex, j)) := by
  obtain ⟨a, ha⟩ := List.mem_iff_getElem?.mp hi
  obtain ⟨b, hb⟩ := List.mem_iff_getElem?.mp hj
  have hsim := similarity_chunkDatasets dice encodings ha hb
  have halt : a < (chunkDatasets db encodings chunks).1.length := by
    have hlt := (List.getElem?_eq_some_iff.mp ha).1
    rw [chunkDatasets, length_chunkEncodings]
    exact hlt
  have hblt : b < (chunkDatasets db encodings chunks).2.length := by
    have hlt := (List.getElem?_eq_some_iff.mp hb).1
    rw [chunkDatasets, length_chunkEncodings]
    exact hlt
  have hthreshold := hsim.symm ▸ hsimilar
  have hmatching : b ∈ matching dice (chunkDatasets db encodings chunks) (value threshold) a :=
    List.mem_filter.mpr ⟨List.mem_range.mpr hblt, decide_eq_true hthreshold⟩
  have hrun' := runOn_of_scheduled h hscheduled hpackage hchunks anonlink.toSimilarityFunction
    threshold
  rw [hrun] at hrun'
  have hbest := anonlink.best _ _ _ _ _ hrun'.symm a halt
  have hfew := (countP_matching ha hb hthreshold).trans_le hcount
  have hchosen := hbest.mem_of_countP_le hmatching hfew
  obtain ⟨s, hs, rfl⟩ := List.mem_map.mp hchosen
  obtain ⟨hmem, hleft⟩ := List.mem_filter.mp hs
  obtain rfl : s.2.1 = a := of_decide_eq_true hleft
  obtain ⟨hindex1, hindex2⟩ := hindex (List.ne_nil_of_mem hmem)
  refine ⟨_, (mem_foundPairs_iff h hscheduled hpackage hchunks hrun).mpr
    ⟨s, hmem, i, j, ha, hb, rfl⟩, ?_⟩
  simp only [recordsOf, UInt32.toNat_ofNat_of_lt' hindex1, UInt32.toNat_ofNat_of_lt' hindex2,
    toNat_record h hscheduled hpackage hchunks (by simp) ha,
    toNat_record h hscheduled hpackage hchunks (by simp) hb]

end Scheduled
section Executed
variable {σ : Type} [LinearOrder σ] {anonlink : SimilarityFunction σ} {fmt : SizedFormat σ}
  {codes codes' : Codes} {db : Database} {dpIds : List DpId} {size : ℕ}
  {encodings : DpId → List Bytes} {threshold : σ} {so : SetOrder} {split : SplitToChunks}
  {chunkSizeAim : ℕ} {packages : List Package} {results : List PackageResult}
  {executed : List (Package × PackageResult)} {s s' : ResultStore}

/-- What is found for a chunk pair does not depend on the package that it is compared in. -/
theorem foundPairs_eq (h : StoredDatasets db dpIds size encodings)
    (hscheduled : Scheduled so split db dpIds chunkSizeAim packages) {package : Package}
    (hpackage : package ∈ packages) {chunks : ChunkPair} (hchunks : chunks ∈ package) :
    foundPairs db size encodings anonlink threshold package chunks =
      foundPairs db size encodings anonlink threshold [chunks] chunks := by
  have hside := storedOnce_of_scheduled h hscheduled hpackage hchunks
  have hids : ∀ chunk ∈ [chunks.1, chunks.2],
      recordIds db package chunk = recordIds db [chunks] chunk := by
    intro chunk hchunk
    have hsingle : recordIds db [chunks] chunk = chunkIds db chunk := if_neg (lt_irrefl 1)
    rw [hsingle]
    exact (hside chunk hchunk).2.2
  unfold foundPairs foundPair runOn storedEncodings
  rw [hids chunks.1 (by simp), hids chunks.2 (by simp)]

/-- The tasks of all packages of a run have returned: each result, in the order of the packages,
is that of a task that has run at some time. -/
structure Completed (anonlink : SimilarityFunction σ) (fmt : SizedFormat σ) (codes : Codes)
    (db : Database) (size : ℕ) (threshold : σ) (packages : List Package)
    (results : List PackageResult) (s s' : ResultStore) : Prop where
  length : packages.length = results.length
  run : ∃ executed, Executed anonlink fmt codes db size threshold s executed s' ∧
    executed.Perm (packages.zip results)

/-- The names that the aggregation generates are not in use. -/
structure Unused (codes codes' : Codes) (s : ResultStore) : Prop where
  distinct : ∀ m n, codes.filename m ≠ codes'.filename n
  fresh : ∀ n, codes'.filename n ∉ s.objects.keys

/-- The aggregation of the results records a file with the given candidate pairs for the run. -/
def Recorded (fmt : CandidateFormat σ) (codes : Codes) (results : List PackageResult)
    (runId : RunId) (s : ResultStore) (cs : List (CandidatePair σ)) : Prop :=
  ∃ s' name, aggregateComparisons fmt codes (some (results.map some)) runId s = (s', .ok ()) ∧
    s'.similarityScores = s.similarityScores ++ [(runId, name)] ∧ Stored fmt s' name cs

theorem aggregateComparisons_single {fmt : CandidateFormat σ}
    {results : List (Option PackageResult)} {entries : List (List (CandidatePair σ))}
    (h : Results fmt codes s results entries) {found : List (CandidatePair σ)}
    (hfound : withPairs entries = [found]) (runId : RunId) :
    ∃ name, aggregateComparisons fmt codes (some results) runId s =
        ({ s with similarityScores := s.similarityScores ++ [(runId, name)] }, .ok ()) ∧
      Stored fmt s name found := by
  obtain ⟨files, hfiles, -, hstored⟩ := resultFiles_ok h.returned
  rw [hfound] at hstored
  obtain ⟨file, rest, hfile, hrest, rfl⟩ := List.forall₂_cons_right_iff.mp hstored
  obtain rfl := List.forall₂_nil_right_iff.mp hrest
  have hheap : mergeHeap fmt codes ([file].insertionSort ResultFile.le) s = (s, .ok [file]) := by
    simp [mergeHeap]
  exact ⟨file.filename, aggregateComparisons_files hfiles hheap runId, hfile⟩

omit [LinearOrder σ] in
/-- Packages that have the same pairs in other orders have none together. -/
theorem forall₂_withPairs {found entries : List (List (CandidatePair σ))}
    (h : List.Forall₂ List.Perm found entries) :
    List.Forall₂ List.Perm (withPairs found) (withPairs entries) := by
  unfold withPairs
  induction h with
  | nil => exact .nil
  | @cons a b found entries hab _ ih =>
    cases a with
    | nil =>
      obtain rfl := hab.nil_eq
      exact ih
    | cons c a =>
      cases b with
      | nil => cases hab.eq_nil
      | cons d b => exact .cons hab ih

section Stored
variable (h : StoredDatasets db dpIds size encodings)
  (hscheduled : Scheduled so split db dpIds chunkSizeAim packages)
include h hscheduled

theorem Completed.stored {executed : List (Package × PackageResult)}
    (hperm : executed.Perm (packages.zip results)) : ∀ e ∈ executed, ∀ chunks ∈ e.1,
    StoredOnce db size encodings chunks.1 ∧ StoredOnce db size encodings chunks.2 := by
  intro e he chunks hchunks
  have hmem := hperm.mem_iff.mp he
  have hside := storedOnce_of_scheduled h hscheduled (List.of_mem_zip hmem).1 hchunks
  exact ⟨(hside chunks.1 (by simp)).2.1, (hside chunks.2 (by simp)).2.1⟩

/-- What is known of the comparison of each chunk pair of a run. -/
theorem Completed.compared
    (hrun : Completed anonlink fmt codes db size threshold packages results s s') :
    ∀ package ∈ packages, ∀ chunks ∈ package, ∃ sims,
      runOn db size encodings anonlink threshold package chunks = .ok sims ∧
        (sims ≠ [] → chunks.1.datasetIndex < 2 ^ 32 ∧ chunks.2.datasetIndex < 2 ^ 32) := by
  intro package hpackage chunks hchunks
  obtain ⟨executed, hexecuted, hperm⟩ := hrun.run
  have hmem : package ∈ (packages.zip results).map Prod.fst := by
    rw [List.map_fst_zip hrun.length.le]
    exact hpackage
  obtain ⟨e, he, rfl⟩ := List.mem_map.mp hmem
  exact hexecuted.compared (Completed.stored h hscheduled hperm) e (hperm.mem_iff.mpr he) chunks
    hchunks

theorem Completed.scores
    (hrun : Completed anonlink fmt codes db size threshold packages results s s') :
    s'.similarityScores = s.similarityScores := by
  obtain ⟨executed, hexecuted, hperm⟩ := hrun.run
  exact (hexecuted.extends (Completed.stored h hscheduled hperm)).scores

/-- The file that the aggregation of a run records has what the comparisons of the packages have
found. It repeats a pair only where all pairs are of one package. -/
theorem Completed.aggregated
    (hrun : Completed anonlink fmt codes db size threshold packages results s s')
    (hunused : Unused codes codes' s) (runId : RunId) :
    ∃ cs, Recorded fmt.toCandidateFormat codes' results runId s' cs ∧ Sorted cs ∧
      (∀ c, c ∈ cs ↔ ∃ package ∈ packages,
        c ∈ packagePairs db size encodings anonlink threshold package) ∧
      (cs.Nodup ∨ ∃ found, withPairs (packages.map
        (packagePairs db size encodings anonlink threshold)) = [found]) ∧
      ∀ found, withPairs (packages.map (packagePairs db size encodings anonlink threshold)) =
        [found] → cs.Perm found := by
  obtain ⟨executed, hexecuted, hperm⟩ := hrun.run
  have hstored := Completed.stored h hscheduled hperm
  obtain ⟨entries, hresults, hentries⟩ := hexecuted.aggregable hstored hperm hrun.length
    hunused.distinct hunused.fresh
  obtain ⟨s'', name, cs, hagg, hrecorded, hfile, hsorted, hmem, hnodup⟩ :=
    aggregateComparisons_ok hresults runId
  have hsame := forall₂_withPairs (List.forall₂_map_right_iff.mpr hentries.flip)
  refine ⟨cs, ⟨s'', name, hagg, hrecorded, hfile⟩, hsorted, fun c => ?_, ?_, fun found hfound => ?_⟩
  · rw [hmem]
    constructor
    · rintro ⟨found, hfound, hc⟩
      obtain ⟨package, hpackage, hsame⟩ := exists_of_forall₂ hentries hfound
      exact ⟨package, hpackage, hsame.mem_iff.mp hc⟩
    · rintro ⟨package, hpackage, hc⟩
      obtain ⟨found, hfound, hsame⟩ := exists_of_forall₂ hentries.flip hpackage
      exact ⟨found, hfound, hsame.mem_iff.mpr hc⟩
  · by_cases hsingle : ∃ entry, withPairs entries = [entry]
    · obtain ⟨entry, hentry⟩ := hsingle
      rw [hentry] at hsame
      obtain ⟨found, rest, -, hrest, heq⟩ := List.forall₂_cons_left_iff.mp hsame
      obtain rfl := List.forall₂_nil_left_iff.mp hrest
      exact .inr ⟨found, heq⟩
    · refine .inl (hnodup.mpr fun entry hentry => ?_)
      exact absurd ⟨entry, hentry⟩ hsingle
  · rw [hfound] at hsame
    obtain ⟨entry, rest, hperm', hrest, hentry⟩ := List.forall₂_cons_right_iff.mp hsame
    obtain rfl := List.forall₂_nil_right_iff.mp hrest
    obtain ⟨name', hagg', hfile'⟩ := aggregateComparisons_single hresults hentry runId
    obtain ⟨rfl, -⟩ := Prod.mk.inj (hagg.symm.trans hagg')
    obtain rfl : name = name' := by
      have hlast := List.append_cancel_left hrecorded.symm
      simpa using hlast
    exact (hfile.unique _ hfile') ▸ hperm'

end Stored
end Executed
section Order
variable {σ : Type} [LinearOrder σ] {db : Database} {dpIds : List DpId} {size : ℕ}
  {encodings : DpId → List Bytes} {split : SplitToChunks} {chunkSizeAim : ℕ}

/-- What the packages of a schedule find does not depend on the order of the set intersections. -/
theorem exists_mem_packagePairs_iff (h : StoredDatasets db dpIds size encodings)
    (anonlink : SimilarityFunction σ) (threshold : σ) {so : SetOrder} {packages : List Package}
    (hscheduled : Scheduled so split db dpIds chunkSizeAim packages) {c : CandidatePair σ} :
    (∃ package ∈ packages, c ∈ packagePairs db size encodings anonlink threshold package) ↔
      ∃ chunks, OfPiece split db dpIds chunkSizeAim chunks ∧
        c ∈ foundPairs db size encodings anonlink threshold [chunks] chunks := by
  constructor
  · rintro ⟨package, hpackage, hc⟩
    obtain ⟨chunks, hchunks, hc⟩ := List.mem_flatMap.mp hc
    rw [foundPairs_eq h hscheduled hpackage hchunks] at hc
    exact ⟨chunks, (h.mem_scheduled hscheduled).mp ⟨package, hpackage, hchunks⟩, hc⟩
  · rintro ⟨chunks, hpiece, hc⟩
    obtain ⟨package, hpackage, hchunks⟩ := (h.mem_scheduled hscheduled).mpr hpiece
    rw [← foundPairs_eq h hscheduled hpackage hchunks] at hc
    exact ⟨package, hpackage, List.mem_flatMap.mpr ⟨chunks, hchunks, hc⟩⟩

/-- Two runs over the same data record the same candidate pairs, whatever the order in which their
packages were made and compared and the names of their files. The files have the same bytes if
the same packages were made, or if neither repeats a pair. -/
theorem scores_unique (h : StoredDatasets db dpIds size encodings)
    (anonlink : SimilarityFunction σ) (fmt : SizedFormat σ) (threshold : σ)
    {codes codes' : Codes} {so : SetOrder} {packages : List Package}
    {results : List PackageResult} {s s' : ResultStore}
    (hscheduled : Scheduled so split db dpIds chunkSizeAim packages)
    (hrun : Completed anonlink fmt codes db size threshold packages results s s')
    (hunused : Unused codes codes' s)
    {codes₂ codes₂' : Codes} {so₂ : SetOrder} {packages₂ : List Package}
    {results₂ : List PackageResult} {t t' : ResultStore}
    (hscheduled₂ : Scheduled so₂ split db dpIds chunkSizeAim packages₂)
    (hrun₂ : Completed anonlink fmt codes₂ db size threshold packages₂ results₂ t t')
    (hunused₂ : Unused codes₂ codes₂' t) (runId runId₂ : RunId) :
    ∃ cs cs₂, Recorded fmt.toCandidateFormat codes' results runId s' cs ∧
      Recorded fmt.toCandidateFormat codes₂' results₂ runId₂ t' cs₂ ∧
      (∀ c, c ∈ cs ↔ c ∈ cs₂) ∧ (packages = packages₂ ∨ cs.Nodup ∧ cs₂.Nodup → cs = cs₂) := by
  obtain ⟨cs, hrecorded, hsorted, hmem, honce, hsingle⟩ :=
    hrun.aggregated h hscheduled hunused runId
  obtain ⟨cs₂, hrecorded₂, hsorted₂, hmem₂, honce₂, hsingle₂⟩ :=
    hrun₂.aggregated h hscheduled₂ hunused₂ runId₂
  have hsame : ∀ c, c ∈ cs ↔ c ∈ cs₂ := by
    intro c
    rw [hmem, hmem₂, exists_mem_packagePairs_iff h anonlink threshold hscheduled,
      exists_mem_packagePairs_iff h anonlink threshold hscheduled₂]
  refine ⟨cs, cs₂, hrecorded, hrecorded₂, hsame, fun hcase => ?_⟩
  suffices hperm : cs.Perm cs₂ from hperm.eq_of_pairwise' hsorted hsorted₂
  have hnodup : cs.Nodup ∧ cs₂.Nodup → cs.Perm cs₂ := fun hboth =>
    (List.perm_ext_iff_of_nodup hboth.1 hboth.2).mpr hsame
  rcases hcase with rfl | hcase
  · rcases honce with hnodup1 | ⟨found, hfound⟩
    · rcases honce₂ with hnodup2 | ⟨found, hfound⟩
      · exact hnodup ⟨hnodup1, hnodup2⟩
      · exact (hsingle found hfound).trans (hsingle₂ found hfound).symm
    · exact (hsingle found hfound).trans (hsingle₂ found hfound).symm
  · exact hnodup hcase

/-- Codes that none of `longCodes` is equal to. -/
def otherCodes : Codes where
  generateCode n := String.ofList (List.replicate (24 + n) 'b')
  injective m n h := by
    have hlen := congrArg (fun s => s.toList.length) h
    simpa using hlen

theorem filename_longCodes_ne_otherCodes (m n : ℕ) :
    longCodes.filename m ≠ otherCodes.filename n := by
  intro h
  unfold Codes.filename SIMILARITY_SCORES_FILENAME_FMT at h
  have hlist := congrArg String.toList h
  simp only [String.toList_append, List.append_cancel_right_eq, List.append_cancel_left_eq] at hlist
  simp [longCodes, otherCodes, Nat.add_comm 24, List.replicate_succ] at hlist

def noFiles : ResultStore := ⟨.empty, [], 0⟩

/-- Two records of each of two data providers, in two blocks that both of them have. -/
def twoBlocks : Database where
  projects := []
  dataproviders := []
  uploads := []
  blocks := [⟨1, ['1'], 1, 1, .ready⟩, ⟨1, ['2'], 2, 1, .ready⟩, ⟨2, ['1'], 3, 1, .ready⟩,
    ⟨2, ['2'], 4, 1, .ready⟩]
  encodings := [⟨(1 <<< 32) + 0, [0, 0, 0, 0, 15], 1⟩, ⟨(1 <<< 32) + 1, [0, 0, 0, 1, 3], 1⟩,
    ⟨(2 <<< 32) + 0, [0, 0, 0, 0, 15], 2⟩, ⟨(2 <<< 32) + 1, [0, 0, 0, 1, 3], 2⟩]
  encodingblocks := [⟨1, 0, (1 <<< 32) + 0, 1⟩, ⟨1, 1, (1 <<< 32) + 1, 2⟩,
    ⟨2, 0, (2 <<< 32) + 0, 3⟩, ⟨2, 1, (2 <<< 32) + 1, 4⟩]
  nextBlockId := 5

def twoEncodings (_ : DpId) : List Bytes := [[15], [3]]

theorem storedDatasets_twoBlocks : StoredDatasets twoBlocks [1, 2] 1 twoEncodings where
  distinct := by decide
  length := by decide
  rows := by
    intro dpId hdp
    have hdp : dpId = 1 ∨ dpId = 2 := by simpa using hdp
    rcases hdp with rfl | rfl
    · exact ⟨by decide, by decide, by decide, by decide⟩
    · exact ⟨by decide, by decide, by decide, by decide⟩
  names := by decide
  blocks := by decide

def firstChunks : ChunkPair := (⟨1, 0, (0, 1), 1⟩, ⟨2, 1, (0, 1), 3⟩)

def secondChunks : ChunkPair := (⟨1, 0, (0, 1), 2⟩, ⟨2, 1, (0, 1), 4⟩)

def reversedOrder : SetOrder := ⟨fun _ _ l => l.reverse, fun _ _ l => List.reverse_perm l⟩

theorem scheduled_twoBlocks :
    Scheduled .same unitSplit twoBlocks [1, 2] 1 [[firstChunks], [secondChunks]] :=
  ⟨[(['1'], 1, 2), (['2'], 1, 2)], by decide, by decide⟩

theorem scheduled_reversedOrder :
    Scheduled reversedOrder unitSplit twoBlocks [1, 2] 1 [[secondChunks], [firstChunks]] :=
  ⟨[(['2'], 1, 2), (['1'], 1, 2)], by decide, by decide⟩

theorem returned_twoBlocks (codes : Codes) (s : ResultStore) {chunks : ChunkPair}
    (hchunks : chunks = firstChunks ∨ chunks = secondChunks) : ∃ s' result,
    PackageResults.computeFilterSimilarity sizedDoubleFormat codes equalFirst twoBlocks oneBits 1
      true none 10 [chunks] s = (s', .ok (some result)) := by
  rcases hchunks with rfl | rfl
  · exact ⟨_, _, rfl⟩
  · exact ⟨_, _, rfl⟩

/-- The second package is compared before the first, after its first result has been lost. -/
theorem completed_twoBlocks (codes : Codes) : ∃ results s',
    Completed equalFirst sizedDoubleFormat codes twoBlocks 1 oneBits
      [[firstChunks], [secondChunks]] results noFiles s' := by
  obtain ⟨s₁, result, hlost⟩ := returned_twoBlocks codes noFiles (.inr rfl)
  obtain ⟨s₂, result₂, hsecond⟩ := returned_twoBlocks codes s₁ (.inr rfl)
  obtain ⟨s₃, result₁, hfirst⟩ := returned_twoBlocks codes s₂ (.inl rfl)
  exact ⟨[result₁, result₂], s₃, rfl, _,
    .lost hlost (.returned hsecond (.returned hfirst .nil)), .swap _ _ _⟩

theorem completed_reversedOrder (codes : Codes) : ∃ results s',
    Completed equalFirst sizedDoubleFormat codes twoBlocks 1 oneBits
      [[secondChunks], [firstChunks]] results noFiles s' := by
  obtain ⟨s₁, result₂, hsecond⟩ := returned_twoBlocks codes noFiles (.inr rfl)
  obtain ⟨s₂, result₁, hfirst⟩ := returned_twoBlocks codes s₁ (.inl rfl)
  exact ⟨[result₂, result₁], s₂, rfl, _, .returned hsecond (.returned hfirst .nil), .refl _⟩

theorem unused_noFiles :
    Unused longCodes otherCodes noFiles ∧ Unused otherCodes longCodes noFiles :=
  ⟨⟨filename_longCodes_ne_otherCodes, by simp [noFiles]⟩,
    ⟨fun m n he => filename_longCodes_ne_otherCodes n m he.symm, by simp [noFiles]⟩⟩

theorem scores_unique_twoBlocks : ∃ results s' results₂ t' cs cs₂,
    Recorded sizedDoubleFormat.toCandidateFormat otherCodes results "a" s' cs ∧
      Recorded sizedDoubleFormat.toCandidateFormat longCodes results₂ "b" t' cs₂ ∧
      (∀ c, c ∈ cs ↔ c ∈ cs₂) ∧
      ([[firstChunks], [secondChunks]] = [[secondChunks], [firstChunks]] ∨
        cs.Nodup ∧ cs₂.Nodup → cs = cs₂) := by
  obtain ⟨results, s', hrun⟩ := completed_twoBlocks longCodes
  obtain ⟨results₂, t', hrun₂⟩ := completed_reversedOrder otherCodes
  exact ⟨results, s', results₂, t', scores_unique storedDatasets_twoBlocks equalFirst
    sizedDoubleFormat oneBits scheduled_twoBlocks hrun unused_noFiles.1 scheduled_reversedOrder
    hrun₂ unused_noFiles.2 "a" "b"⟩

end Order
section Download
variable {σ : Type} [LinearOrder σ]

/-- The response streams the document of a file from the object store. -/
def getSimilarityScores (fmt : CandidateFormat σ) (str : σ → List Char) (filename : FileName) :
    Aggregate (List Char) := do
  let candidatePairBinaryStream ← getObject filename
  let candidatePairs ← Action.lift (fmt.load candidatePairBinaryStream)
  return (generateScores str (candidateArrays candidatePairs)).flatten

theorem getSimilarityScores_ok {fmt : CandidateFormat σ} (str : σ → List Char)
    {filename : FileName} {s : ResultStore} {cs : List (CandidatePair σ)}
    (h : Stored fmt s filename cs) :
    getSimilarityScores fmt str filename s =
      (s, .ok (generateScores str (candidateArrays cs)).flatten) := by
  unfold Stored CandidateFormat.dump at h
  simp only [getSimilarityScores, getObject, Action.bind_apply, Action.get_apply, h, orRaise,
    Option.elim_some, Action.lift_apply, fmt.load_dump, Action.pure_apply]

omit [LinearOrder σ] in
/-- The document of candidate pairs whose similarities are written as numbers. -/
theorem reads_scores {str : σ → List Char} {cs : List (CandidatePair σ)}
    (h : ∀ c ∈ cs, Json.isNumber (str c.sim) = true) :
    Json.Reads (.object [(scoresKey, .array (cs.map (scoreJson str)))])
      (generateScores str (candidateArrays cs)).flatten := by
  have hlines : List.Forall₂ Json.Reads (cs.map (scoreJson str))
      (cs.map fun c => '[' :: scoreLine str c ++ [']']) := by
    rw [List.forall₂_map_left_iff, List.forall₂_map_right_iff, List.forall₂_same]
    exact fun c hc => reads_scoreLine (h c hc)
  have hkey : ∀ c ∈ scoresKey, c ≠ '"' ∧ c ≠ '\\' ∧ ¬ c.toNat < 32 := by simp [scoresKey]
  rw [flatten_generateScores h]
  exact Json.reads_object hkey (Json.reads_array hlines).space

variable {value : σ ↪o ℚ} {dice : Bytes → Bytes → ℚ} {db : Database} {dpIds : List DpId}
  {size : ℕ} {encodings : DpId → List Bytes} {split : SplitToChunks} {chunkSizeAim : ℕ}
  {threshold : σ} {so : SetOrder} {packages : List Package}

/-- The candidate pairs of a run, in order: similar records that share a block, and all of those
that no comparison cuts off. -/
structure Scores (value : σ ↪o ℚ) (dice : Bytes → Bytes → ℚ) (db : Database) (dpIds : List DpId)
    (encodings : DpId → List Bytes) (threshold : σ) (split : SplitToChunks) (chunkSizeAim : ℕ)
    (cs : List (CandidatePair σ)) : Prop where
  sorted : Sorted cs
  correct : ∀ c ∈ cs, Correct value dice db dpIds encodings threshold c
  complete : ∀ pair, Qualifies dice db dpIds encodings (value threshold) pair →
    (∀ dp1 dp2, dpIds[pair.1.1]? = some dp1 → dpIds[pair.2.1]? = some dp2 →
      Asked dice db encodings split chunkSizeAim dp1 dp2 pair.1.2 pair.2.2) →
    ∃ c ∈ cs, recordsOf c = pair

/-- What the comparisons of all packages find are the candidate pairs of the run. -/
theorem scores_of_found (h : StoredDatasets db dpIds size encodings)
    (hscheduled : Scheduled so split db dpIds chunkSizeAim packages)
    {anonlink : DiceDoubles value dice}
    (hcompared : ∀ package ∈ packages, ∀ chunks ∈ package, ∃ sims,
      runOn db size encodings anonlink.toSimilarityFunction threshold package chunks = .ok sims ∧
        (sims ≠ [] → chunks.1.datasetIndex < 2 ^ 32 ∧ chunks.2.datasetIndex < 2 ^ 32))
    {cs : List (CandidatePair σ)} (hsorted : Sorted cs)
    (hmem : ∀ c, c ∈ cs ↔ ∃ package ∈ packages,
      c ∈ packagePairs db size encodings anonlink.toSimilarityFunction threshold package) :
    Scores value dice db dpIds encodings threshold split chunkSizeAim cs where
  sorted := hsorted
  correct := by
    intro c hc
    obtain ⟨package, hpackage, hc⟩ := (hmem c).mp hc
    obtain ⟨chunks, hchunks, hc⟩ := List.mem_flatMap.mp hc
    obtain ⟨sims, hsims, hindex⟩ := hcompared package hpackage chunks hchunks
    exact correct_of_mem_foundPairs h hscheduled hpackage hchunks hsims hindex hc
  complete := by
    intro pair hqualifies hasked
    obtain ⟨hlt, dp1, dp2, hdp1, hdp2, -, hsimilar⟩ := hqualifies
    obtain ⟨name, blockId1, count1, blockId2, count2, hmem1, hmem2, piece, hpiece, hi, hj,
      hcount⟩ := hasked dp1 dp2 hdp1 hdp2
    let chunks : ChunkPair :=
      (⟨dp1, pair.1.1, piece.1, blockId1⟩, ⟨dp2, pair.2.1, piece.2, blockId2⟩)
    have hof : OfPiece split db dpIds chunkSizeAim chunks :=
      ⟨hlt, hdp1, hdp2, name, count1, count2, hmem1, hmem2, hpiece⟩
    obtain ⟨package, hpackage, hchunks⟩ := (h.mem_scheduled hscheduled).mpr hof
    obtain ⟨sims, hsims, hindex⟩ := hcompared package hpackage chunks hchunks
    obtain ⟨c, hc, hrecords⟩ := exists_mem_foundPairs h hscheduled hpackage hchunks hsims hindex
      hi hj hsimilar hcount
    exact ⟨c, (hmem c).mpr ⟨package, hpackage, List.mem_flatMap.mpr ⟨chunks, hchunks, hc⟩⟩,
      hrecords⟩

/-- The similarities of the candidate pairs of a run are written as numbers. -/
theorem Scores.isNumber {cs : List (CandidatePair σ)}
    (h : Scores value dice db dpIds encodings threshold split chunkSizeAim cs)
    {str : σ → List Char}
    (hstr : ∀ x e1 e2, value x = dice e1 e2 → Json.isNumber (str x) = true) :
    ∀ c ∈ cs, Json.isNumber (str c.sim) = true := by
  intro c hc
  obtain ⟨⟨-, dp1, dp2, hdp1, hdp2, -⟩, hsim⟩ := h.correct c hc
  exact hstr _ _ _ (hsim dp1 dp2 hdp1 hdp2)

theorem Recorded.download {fmt : CandidateFormat σ} {codes : Codes}
    {results : List PackageResult} {runId : RunId} {s : ResultStore} {cs : List (CandidatePair σ)}
    (h : Recorded fmt codes results runId s cs) {str : σ → List Char}
    (hnumber : ∀ c ∈ cs, Json.isNumber (str c.sim) = true) :
    ∃ s' name text,
      aggregateComparisons fmt codes (some (results.map some)) runId s = (s', .ok ()) ∧
      s'.similarityScores = s.similarityScores ++ [(runId, name)] ∧
      getSimilarityScores fmt str name s' = (s', .ok text) ∧
      Json.parse text = some (.object [(scoresKey, .array (cs.map (scoreJson str)))]) := by
  obtain ⟨s', name, hagg, hrecorded, hfile⟩ := h
  exact ⟨s', name, _, hagg, hrecorded, getSimilarityScores_ok str hfile,
    (reads_scores hnumber).parse⟩

/-- From stored encodings to the response: once the tasks of all packages have returned, in any
order, the aggregation records a file whose download is a document of the candidate pairs. It
repeats a pair only where all pairs are of one package. -/
theorem scores_of_completed (h : StoredDatasets db dpIds size encodings)
    (hscheduled : Scheduled so split db dpIds chunkSizeAim packages)
    {anonlink : DiceDoubles value dice} {fmt : SizedFormat σ} {codes codes' : Codes}
    {results : List PackageResult} {s s' : ResultStore}
    (hrun : Completed anonlink.toSimilarityFunction fmt codes db size threshold packages results
      s s')
    (hunused : Unused codes codes' s) {str : σ → List Char}
    (hstr : ∀ x e1 e2, value x = dice e1 e2 → Json.isNumber (str x) = true) (runId : RunId) :
    ∃ s'' name cs text,
      aggregateComparisons fmt.toCandidateFormat codes' (some (results.map some)) runId s' =
        (s'', .ok ()) ∧
      s''.similarityScores = s.similarityScores ++ [(runId, name)] ∧
      getSimilarityScores fmt.toCandidateFormat str name s'' = (s'', .ok text) ∧
      Json.parse text = some (.object [(scoresKey, .array (cs.map (scoreJson str)))]) ∧
      Scores value dice db dpIds encodings threshold split chunkSizeAim cs ∧
      (cs.Nodup ∨ ∃ found, withPairs (packages.map (packagePairs db size encodings
        anonlink.toSimilarityFunction threshold)) = [found]) := by
  obtain ⟨cs, hrecorded, hsorted, hmem, honce, -⟩ :=
    hrun.aggregated h hscheduled hunused runId
  have hscores := scores_of_found h hscheduled (hrun.compared h hscheduled) hsorted hmem
  obtain ⟨s'', name, text, hagg, hfiles, hdownload, hparse⟩ :=
    hrecorded.download (hscores.isNumber hstr)
  refine ⟨s'', name, cs, text, hagg, ?_, hdownload, hparse, hscores, honce⟩
  rw [hfiles, hrun.scores h hscheduled]

/-- The number of smallest positive doubles that a double is, from its bits. -/
def smallestDoubles (n : ℕ) : ℕ :=
  if n / 2 ^ 52 = 0 then n else (2 ^ 52 + n % 2 ^ 52) * 2 ^ (n / 2 ^ 52 - 1)

theorem strictMono_smallestDoubles : StrictMono smallestDoubles := by
  refine strictMono_nat_of_lt_succ fun n => ?_
  unfold smallestDoubles
  have hmod := Nat.mod_lt n (show 0 < 2 ^ 52 by decide)
  by_cases hcarry : n % 2 ^ 52 + 1 < 2 ^ 52
  · have hdiv : (n + 1) / 2 ^ 52 = n / 2 ^ 52 := by omega
    have hrem : (n + 1) % 2 ^ 52 = n % 2 ^ 52 + 1 := by omega
    rw [hdiv, hrem]
    split_ifs with hsubnormal
    · exact Nat.lt_succ_self n
    · exact Nat.mul_lt_mul_of_pos_right (by omega) (Nat.pow_pos (by decide))
  · -- the next double has the next exponent
    have hdiv : (n + 1) / 2 ^ 52 = n / 2 ^ 52 + 1 := by omega
    have hrem : (n + 1) % 2 ^ 52 = 0 := by omega
    rw [hdiv, hrem, if_neg (Nat.succ_ne_zero _), Nat.add_sub_cancel, Nat.add_zero]
    split_ifs with hsubnormal
    · rw [hsubnormal]
      omega
    · obtain ⟨e, he⟩ := Nat.exists_eq_add_one_of_ne_zero hsubnormal
      rw [he, Nat.add_sub_cancel, pow_succ 2 e, Nat.mul_comm (2 ^ e), ← Nat.mul_assoc]
      exact Nat.mul_lt_mul_of_pos_right (by omega) (Nat.pow_pos (by decide))

def doubleValue : DoubleBits ↪o ℚ :=
  OrderEmbedding.ofStrictMono (fun b => smallestDoubles b / 2 ^ 1074) fun a b hab => by
    have hlt : (smallestDoubles a : ℚ) < smallestDoubles b :=
      Nat.cast_lt.mpr (strictMono_smallestDoubles hab)
    exact div_lt_div_of_pos_right hlt (by positivity)

theorem doubleValue_oneBits : doubleValue oneBits = 1 := by
  have hexponent : (oneBits : ℕ) / 2 ^ 52 = 1023 := by decide
  have hfraction : (oneBits : ℕ) % 2 ^ 52 = 0 := by decide
  have hsmallest : smallestDoubles oneBits = 2 ^ 1074 := by
    rw [smallestDoubles, hexponent, hfraction, if_neg (by decide), Nat.add_zero, ← pow_add]
  change (smallestDoubles oneBits : ℚ) / 2 ^ 1074 = 1
  rw [hsmallest, Nat.cast_pow, Nat.cast_ofNat]
  exact div_self (by positivity)

theorem doubleValue_nonneg (b : DoubleBits) : 0 ≤ doubleValue b := by
  change (0 : ℚ) ≤ smallestDoubles b / 2 ^ 1074
  positivity

def equalDice (e1 e2 : Bytes) : ℚ := if e1 = e2 then 1 else -1

theorem matching_equalDice (datasets : List Bytes × List Bytes) (threshold : DoubleBits)
    {i : ℕ} (hi : i < datasets.1.length) :
    matching equalDice datasets (doubleValue threshold) i =
      if threshold ≤ oneBits then
        (List.range datasets.2.length).filter fun j => datasets.1[i]? = datasets.2[j]?
      else [] := by
  have hsim : ∀ j < datasets.2.length, (doubleValue threshold ≤ similarity equalDice datasets i j ↔
      threshold ≤ oneBits ∧ datasets.1[i]? = datasets.2[j]?) := by
    intro j hj
    have hnonneg := doubleValue_nonneg threshold
    rw [similarity, equalDice, List.getElem?_eq_getElem hi, List.getElem?_eq_getElem hj,
      Option.getD_some, Option.getD_some, Option.some.injEq]
    split_ifs with heq
    · rw [← doubleValue_oneBits, doubleValue.le_iff_le]
      exact (and_iff_left heq).symm
    · exact iff_of_false (by linarith) (fun hboth => heq hboth.2)
  unfold matching
  split_ifs with hle
  · refine List.filter_congr fun j hj => ?_
    rw [decide_eq_decide, hsim j (List.mem_range.mp hj), and_iff_right hle]
  · rw [List.filter_eq_nil_iff]
    intro j hj hsimilar
    exact hle ((hsim j (List.mem_range.mp hj)).mp (of_decide_eq_true hsimilar)).1

/-- What is found for one record. -/
theorem filter_equalFirst (call : ChunkPair) (datasets : List Bytes × List Bytes)
    {threshold : DoubleBits} (hle : threshold ≤ oneBits) (k : ℕ) {sims : List (DoubleBits × ℕ × ℕ)}
    (h : equalFirst.run call datasets threshold k = .ok sims) {i : ℕ}
    (hi : i < datasets.1.length) :
    ((sims.filter fun s => s.2.1 = i).map fun s => s.2.2) =
      ((List.range datasets.2.length).filter fun j => datasets.1[i]? = datasets.2[j]?).take k := by
  obtain rfl := Except.ok.inj h
  rw [if_pos hle, List.filter_flatMap, List.map_flatMap,
    ← flatMap_eq_of_nodup List.nodup_range (List.mem_range.mpr hi)
      fun i => ((List.range datasets.2.length).filter fun j =>
        datasets.1[i]? = datasets.2[j]?).take k]
  apply List.flatMap_congr
  intro a _
  have hall : ∀ s ∈ (((List.range datasets.2.length).filter fun j =>
      datasets.1[a]? = datasets.2[j]?).take k).map fun j => (oneBits, a, j), s.2.1 = a := by
    intro s hs
    obtain ⟨j, -, rfl⟩ := List.mem_map.mp hs
    rfl
  split_ifs with ha
  · rw [List.filter_eq_self.mpr fun s hs => decide_eq_true ((hall s hs).trans ha), List.map_map]
    exact List.map_id _
  · rw [List.filter_eq_nil_iff.mpr fun s hs he => ha ((hall s hs).symm.trans
      (of_decide_eq_true he)), List.map_nil]

def equalDoubles : DiceDoubles doubleValue equalDice where
  toSimilarityFunction := equalFirst
  sound call datasets threshold k sims h s hs := by
    obtain rfl := Except.ok.inj h
    split_ifs at hs with hle
    · obtain ⟨i, hi, hs⟩ := List.mem_flatMap.mp hs
      obtain ⟨j, hj, rfl⟩ := List.mem_map.mp hs
      obtain ⟨hj, heq⟩ := List.mem_filter.mp (List.mem_of_mem_take hj)
      have heq : datasets.1[i]? = datasets.2[j]? := of_decide_eq_true heq
      rw [doubleValue_oneBits, similarity, heq, equalDice, if_pos rfl]
    · cases hs
  best call datasets threshold k sims h i hi := by
    rw [matching_equalDice datasets threshold hi]
    split_ifs with hle
    · rw [filter_equalFirst call datasets hle k h hi]
      have hnodup : ((List.range datasets.2.length).filter fun j =>
          datasets.1[i]? = datasets.2[j]?).Nodup := List.nodup_range.filter _
      have hsim : ∀ j ∈ (List.range datasets.2.length).filter fun j =>
          datasets.1[i]? = datasets.2[j]?, similarity equalDice datasets i j = 1 := by
        intro j hj
        have heq : datasets.1[i]? = datasets.2[j]? := of_decide_eq_true (List.mem_filter.mp hj).2
        rw [similarity, heq, equalDice, if_pos rfl]
      refine ⟨hnodup.sublist (List.take_sublist _ _), fun j hj => List.mem_of_mem_take hj,
        List.length_take, fun a ha b hb _ => ?_⟩
      rw [hsim a (List.mem_of_mem_take ha), hsim b hb]
    · obtain rfl := Except.ok.inj h
      simp only [if_neg hle]
      exact ⟨List.nodup_nil, by simp, by simp, by simp⟩

theorem scores_of_completed_twoBlocks : ∃ (results : List PackageResult) (s' s'' : ResultStore)
    (name : FileName) (cs : List (CandidatePair DoubleBits)) (text : List Char),
    aggregateComparisons sizedDoubleFormat.toCandidateFormat otherCodes
        (some (results.map some)) "run" s' = (s'', .ok ()) ∧
      s''.similarityScores = noFiles.similarityScores ++ [("run", name)] ∧
      getSimilarityScores sizedDoubleFormat.toCandidateFormat (fun _ => ['1', '.', '0']) name s'' =
        (s'', .ok text) ∧
      Json.parse text = some (.object [(scoresKey,
        .array (cs.map (scoreJson fun _ => ['1', '.', '0'])))]) ∧
      Scores doubleValue equalDice twoBlocks [1, 2] twoEncodings oneBits unitSplit 1 cs ∧
      (cs.Nodup ∨ ∃ found, withPairs ([[firstChunks], [secondChunks]].map (packagePairs twoBlocks 1
        twoEncodings equalDoubles.toSimilarityFunction oneBits)) = [found]) := by
  obtain ⟨results, s', hrun⟩ := completed_twoBlocks longCodes
  have hrun : Completed equalDoubles.toSimilarityFunction sizedDoubleFormat longCodes twoBlocks 1
      oneBits [[firstChunks], [secondChunks]] results noFiles s' := hrun
  exact ⟨results, s', scores_of_completed storedDatasets_twoBlocks scheduled_twoBlocks hrun
    unused_noFiles.1 (fun _ _ _ _ => by decide) "run"⟩

end Download
end EntityService.Tasks.ScoreFile
