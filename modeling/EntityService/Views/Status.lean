import EntityService.Tasks.TotalComparisons

/-! The progress of a run that computes similarities, as its status reports it. -/
namespace EntityService.Views
open Lib Database Tasks

/-- The total in the cache of the project, or else the one in the database, which is cached. -/
def getTotalNumberOfComparisons (agg : AggOrder) (db : Database) (projectId : ProjectId)
    (totalComparisons : Option ℤ) : ℤ × Option ℤ :=
  match totalComparisons with
  | some res => (res, totalComparisons)
  | none =>
    let total := db.getTotalComparisonsForProject agg projectId
    (total, some total)

def comparisonProgress (hash : Cache.RunHash) (maxVal : ℤ) : Option (ℕ × ℚ) := do
  let absVal ← hash.comparisons
  return (absVal, if maxVal ≠ 0 then absVal / maxVal else 0)

/-- Nothing is cached, or what the database counts. -/
def CachedTotal (agg : AggOrder) (db : Database) (projectId : ProjectId)
    (totalComparisons : Option ℤ) : Prop :=
  ∀ total ∈ totalComparisons, total = db.getTotalComparisonsForProject agg projectId

theorem getTotalNumberOfComparisons_eq {agg : AggOrder} {db : Database} {projectId : ProjectId}
    {totalComparisons : Option ℤ} (h : CachedTotal agg db projectId totalComparisons) :
    (getTotalNumberOfComparisons agg db projectId totalComparisons).1 =
        db.getTotalComparisonsForProject agg projectId ∧
      CachedTotal agg db projectId
        (getTotalNumberOfComparisons agg db projectId totalComparisons).2 := by
  cases totalComparisons with
  | none =>
    refine ⟨rfl, fun total htotal => ?_⟩
    exact (Option.some.inj htotal).symm
  | some res => exact ⟨h res rfl, h⟩

theorem relative_le_one {hash : Cache.RunHash} {maxVal : ℤ} {progress : ℕ × ℚ}
    (hle : (hash.comparisons.getD 0 : ℤ) ≤ maxVal)
    (h : comparisonProgress hash maxVal = some progress) : progress.2 ≤ 1 := by
  obtain ⟨absVal, habs, h⟩ := Option.bind_eq_some_iff.mp h
  obtain rfl := Option.some.inj h
  rw [habs, Option.getD_some] at hle
  dsimp only
  split_ifs with hzero
  · have hpos : 0 < maxVal := by omega
    have hle : (absVal : ℚ) ≤ maxVal := by exact_mod_cast hle
    have hpos : (0 : ℚ) < maxVal := by exact_mod_cast hpos
    exact (div_le_one hpos).mpr hle
  · exact zero_le_one

/-- The total that is reported is the number of record pairs in the packages. No run in which
each package is counted once makes more progress than that. The names of blocks that are stored have
no white space. -/
theorem totalComparisons_scheduled (agg : AggOrder) (so : SetOrder) (split : SplitToChunks)
    {db : Database} {projectId : ProjectId} {dpIds : List DpId} {chunkSizeAim : ℕ}
    (haim : 1 ≤ chunkSizeAim) (hdistinct : dpIds.Nodup)
    (hproject : dpIds.Perm (db.providerIds projectId))
    (hclean : ∀ r ∈ db.blocks, r.dp ∈ dpIds → Clean r.blockName)
    (honce : ∀ dpId ∈ dpIds,
      ((db.blocks.filter fun r => r.dp = dpId).map BlockRow.blockName).Nodup)
    (hpositive : ∀ r ∈ db.blocks, r.dp ∈ dpIds → 0 < r.count) :
    ∃ packages, Scheduled so split db dpIds chunkSizeAim packages ∧
      ((packages.map comparisons).sum : ℤ) = db.getTotalComparisonsForProject agg projectId ∧
      ∀ compared : List ComparedPackage,
        List.Forall₂ (fun package c => numComparisons c ≤ comparisons package) packages compared →
        ∀ maxRetries maxCandidatePairs p,
          Pool.Reaches ((computeFilterSimilarity maxRetries maxCandidatePairs).restrict countedOnce)
            (scheduled compared) p →
          ∀ totalComparisons, CachedTotal agg db projectId totalComparisons →
            ∀ progress ∈ comparisonProgress p.shared
              (getTotalNumberOfComparisons agg db projectId totalComparisons).1,
              progress.2 ≤ 1 := by
  obtain ⟨blocks, packages, hcommon, hpackages, -⟩ :=
    (blockMetadata db dpIds hdistinct).tagged_packages so split haim
  have hscheduled : Scheduled so split db dpIds chunkSizeAim packages :=
    ⟨⟨blocks, hcommon, hpackages⟩⟩
  have hblocks := namedBlocks_of_clean hclean honce hpositive
  have htotal := sum_comparisons_eq hblocks hdistinct hproject agg haim hscheduled
  refine ⟨packages, hscheduled, htotal, ?_⟩
  intro compared hcompared maxRetries maxCandidatePairs p hreaches totalComparisons hcached progress
    hprogress
  rw [(getTotalNumberOfComparisons_eq hcached).1, ← htotal] at hprogress
  have hcounted := (counters_le hreaches).1
  have hwork : (compared.map numComparisons).sum ≤ (packages.map comparisons).sum :=
    List.Forall₂.sum_le_sum (List.forall₂_map_left_iff.mpr
      (List.forall₂_map_right_iff.mpr hcompared.flip))
  exact relative_le_one (by exact_mod_cast hcounted.trans hwork) hprogress

/-- An aggregate in the order of the rows. -/
def rowOrder : AggOrder := ⟨fun _ counts => counts, fun _ counts => List.Perm.refl counts⟩

/-- Two data providers with one and two records in their one block. -/
def sharedBlock : Database :=
  { Similarity.oneToTwo with dataproviders := [⟨1, "a", .done, "p"⟩, ⟨2, "b", .done, "p"⟩] }

theorem clean_sharedBlock : ∀ r ∈ sharedBlock.blocks, r.dp ∈ [1, 2] → Clean r.blockName := by
  simp [Clean, sharedBlock, Similarity.oneToTwo]

example : sharedBlock.getTotalComparisonsForProject rowOrder "p" = 2 := by decide

theorem totalComparisons_scheduled_sharedBlock :
    ∃ packages, Scheduled .same unitSplit sharedBlock [1, 2] 100 packages ∧
      ((packages.map comparisons).sum : ℤ) =
        sharedBlock.getTotalComparisonsForProject rowOrder "p" ∧
      ∀ compared : List ComparedPackage,
        List.Forall₂ (fun package c => numComparisons c ≤ comparisons package) packages compared →
        ∀ maxRetries maxCandidatePairs p,
          Pool.Reaches ((computeFilterSimilarity maxRetries maxCandidatePairs).restrict countedOnce)
            (scheduled compared) p →
          ∀ totalComparisons, CachedTotal rowOrder sharedBlock "p" totalComparisons →
            ∀ progress ∈ comparisonProgress p.shared
              (getTotalNumberOfComparisons rowOrder sharedBlock "p" totalComparisons).1,
              progress.2 ≤ 1 :=
  totalComparisons_scheduled rowOrder .same unitSplit (by decide) (by decide) (by decide)
    clean_sharedBlock (by decide) (by decide)

end EntityService.Views
