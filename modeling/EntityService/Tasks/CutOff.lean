import EntityService.Tasks.Emitted

/-! The tasks of a run emit every pair of records that qualifies as long as no comparison of a
chunk pair is cut off by the number of matches that it asks for. -/
namespace EntityService.Tasks.Similarity
open Lib

theorem flatMap_eq_of_nodup {α β : Type*} [DecidableEq α] {l : List α} (hl : l.Nodup) {a : α}
    (ha : a ∈ l) (g : α → List β) : (l.flatMap fun b => if b = a then g b else []) = g a := by
  induction l with
  | nil => cases ha
  | cons b l ih =>
    obtain ⟨hb, hl⟩ := List.nodup_cons.mp hl
    rw [List.flatMap_cons]
    split_ifs with heq
    · have hrest : (l.flatMap fun c => if c = a then g c else []) = [] := by
        rw [List.flatMap_eq_nil_iff]
        intro c hc
        apply if_neg
        intro hca
        exact hb (heq.trans hca.symm ▸ hc)
      rw [hrest, List.append_nil, heq]
    · have hmem : a ∈ l := (List.mem_cons.mp ha).resolve_left (Ne.symm heq)
      rw [List.nil_append, ih hl hmem]

section Avoiding
variable (dice : Bytes → Bytes → ℚ) (avoid : ChunkPair → ℕ → ℕ → Prop)

theorem nodup_matching (datasets : List Bytes × List Bytes) (threshold : ℚ) (i : ℕ) :
    (matching dice datasets threshold i).Nodup := List.nodup_range.filter _

/-- A choice of matches of a record that does without some of them where it can. -/
theorem exists_avoiding (call : ChunkPair) (datasets : List Bytes × List Bytes) (threshold : ℚ)
    (k i : ℕ) : ∃ chosen,
      MostSimilar (similarity dice datasets i) k (matching dice datasets threshold i) chosen ∧
      ((∃ other, MostSimilar (similarity dice datasets i) k (matching dice datasets threshold i)
        other ∧ ∀ j ∈ other, ¬ avoid call i j) → ∀ j ∈ chosen, ¬ avoid call i j) := by
  by_cases hother : ∃ other, MostSimilar (similarity dice datasets i) k
      (matching dice datasets threshold i) other ∧ ∀ j ∈ other, ¬ avoid call i j
  · obtain ⟨other, hbest, havoids⟩ := hother
    exact ⟨other, hbest, fun _ => havoids⟩
  · obtain ⟨chosen, hbest⟩ := MostSimilar.exists_chosen (similarity dice datasets i) k
      (nodup_matching dice datasets threshold i)
    exact ⟨chosen, hbest, fun h => absurd h hother⟩

noncomputable def chosenAvoiding (call : ChunkPair) (datasets : List Bytes × List Bytes)
    (threshold : ℚ) (k i : ℕ) : List ℕ :=
  (exists_avoiding dice avoid call datasets threshold k i).choose

/-- A comparison that avoids some matches of records where it may leave them out. -/
noncomputable def DiceCoefficientAccelerated.avoiding : DiceCoefficientAccelerated dice where
  run call datasets threshold k := (List.range datasets.1.length).flatMap fun i =>
    (chosenAvoiding dice avoid call datasets threshold k i).map fun j =>
      (similarity dice datasets i j, i, j)
  sound call datasets threshold k r hr := by
    obtain ⟨i, hi, hr⟩ := List.mem_flatMap.mp hr
    obtain ⟨j, _, heq⟩ := List.mem_map.mp hr
    rw [← heq]
    exact ⟨List.mem_range.mp hi, rfl⟩
  best call datasets threshold k i hi := by
    have hchosen := (exists_avoiding dice avoid call datasets threshold k i).choose_spec.1
    have hrun : ((((List.range datasets.1.length).flatMap fun i =>
        (chosenAvoiding dice avoid call datasets threshold k i).map fun j =>
          (similarity dice datasets i j, i, j)).filter fun r => r.2.1 = i).map fun r => r.2.2) =
        chosenAvoiding dice avoid call datasets threshold k i := by
      rw [List.filter_flatMap, List.map_flatMap,
        ← flatMap_eq_of_nodup List.nodup_range (List.mem_range.mpr hi)
          (chosenAvoiding dice avoid call datasets threshold k)]
      apply List.flatMap_congr
      intro a _
      split_ifs with ha
      · rw [List.filter_eq_self.mpr (by simp [ha]), List.map_map]
        exact List.map_id _
      · rw [List.filter_eq_nil_iff.mpr (by simp [ha]), List.map_nil]
    rw [hrun]
    exact hchosen

variable {dice avoid} {call : ChunkPair} {datasets : List Bytes × List Bytes} {threshold : ℚ}
  {k : ℕ}

theorem DiceCoefficientAccelerated.not_avoid {s : ℚ × ℕ × ℕ}
    (hs : s ∈ (avoiding dice avoid).run call datasets threshold k)
    (hother : ∃ other, MostSimilar (similarity dice datasets s.2.1) k
      (matching dice datasets threshold s.2.1) other ∧ ∀ j ∈ other, ¬ avoid call s.2.1 j) :
    ¬ avoid call s.2.1 s.2.2 := by
  obtain ⟨i, _, hs⟩ := List.mem_flatMap.mp hs
  obtain ⟨j, hj, heq⟩ := List.mem_map.mp hs
  obtain rfl := heq
  exact (exists_avoiding dice avoid call datasets threshold k i).choose_spec.2 hother j hj

end Avoiding

section Chunks
variable {dice : Bytes → Bytes → ℚ} {db : Database} {dpIds : List DpId} {size : ℕ}
  {encodings : DpId → List Bytes} {threshold : ℚ} {chunks : ChunkPair} {a b i j : ℕ}

def chunkDatasets (db : Database) (encodings : DpId → List Bytes) (chunks : ChunkPair) :
    List Bytes × List Bytes :=
  (chunkEncodings db encodings chunks.1, chunkEncodings db encodings chunks.2)

theorem similarity_chunkDatasets (dice : Bytes → Bytes → ℚ) (encodings : DpId → List Bytes)
    (hi : (chunkIds db chunks.1)[a]? = some i)
    (hj : (chunkIds db chunks.2)[b]? = some j) :
    similarity dice (chunkDatasets db encodings chunks) a b =
      dice (encodingOf encodings chunks.1.dataproviderId i)
        (encodingOf encodings chunks.2.dataproviderId j) := by
  simp only [similarity, chunkDatasets, chunkEncodings, List.getElem?_map, hi, hj,
    Option.map_some, Option.getD_some]

/-- Of the records of a chunk, those at least as similar to a record as a match are matches. -/
theorem countP_matching (hi : (chunkIds db chunks.1)[a]? = some i)
    (hj : (chunkIds db chunks.2)[b]? = some j)
    (hb : threshold ≤ similarity dice (chunkDatasets db encodings chunks) a b) :
    (matching dice (chunkDatasets db encodings chunks) threshold a).countP (fun b' =>
      similarity dice (chunkDatasets db encodings chunks) a b ≤
        similarity dice (chunkDatasets db encodings chunks) a b') =
    (chunkIds db chunks.2).countP fun j' =>
      dice (encodingOf encodings chunks.1.dataproviderId i)
        (encodingOf encodings chunks.2.dataproviderId j) ≤
      dice (encodingOf encodings chunks.1.dataproviderId i)
        (encodingOf encodings chunks.2.dataproviderId j') := by
  have hids : chunkIds db chunks.2 = (List.range (chunkIds db chunks.2).length).map
      fun b' => ((chunkIds db chunks.2)[b']?).getD 0 := by
    apply List.ext_getElem?
    intro n
    rw [List.getElem?_map]
    rcases lt_or_ge n (chunkIds db chunks.2).length with hlt | hge
    · rw [List.getElem?_range hlt, Option.map_some, List.getElem?_eq_getElem hlt,
        Option.getD_some]
    · rw [List.getElem?_eq_none hge, List.getElem?_eq_none (by simpa using hge), Option.map_none]
  have hlength : (chunkDatasets db encodings chunks).2.length = (chunkIds db chunks.2).length :=
    length_chunkEncodings chunks.2
  conv_rhs => rw [hids]
  rw [matching, List.countP_filter, List.countP_map, hlength]
  apply List.countP_congr
  intro b' hb'
  have hget : (chunkIds db chunks.2)[b']? = some (((chunkIds db chunks.2)[b']?).getD 0) := by
    rw [List.getElem?_eq_getElem (List.mem_range.mp hb'), Option.getD_some]
  have hsim := similarity_chunkDatasets dice encodings hi hj
  have hsim' := similarity_chunkDatasets dice encodings hi hget
  rw [hsim] at hb
  rw [hsim, hsim', Function.comp_apply, Bool.and_eq_true, decide_eq_true_eq, decide_eq_true_eq,
    and_iff_left_iff_imp]
  exact hb.trans

/-- The comparison of a chunk pair finds records of the chunks that reach the threshold. -/
theorem similar_of_chunkEmits {anonlink : DiceCoefficientAccelerated dice}
    {pair : RecordId × RecordId} (h : ChunkEmits anonlink db encodings threshold chunks pair) :
    pair.1.1 = chunks.1.datasetIndex ∧ pair.2.1 = chunks.2.datasetIndex ∧
      pair.1.2 ∈ chunkIds db chunks.1 ∧ pair.2.2 ∈ chunkIds db chunks.2 ∧
      threshold ≤ dice (encodingOf encodings chunks.1.dataproviderId pair.1.2)
        (encodingOf encodings chunks.2.dataproviderId pair.2.2) := by
  obtain ⟨s, hs, hi0, hj0, hi, hj⟩ := h
  have hthreshold := anonlink.threshold_le hs
  have hsim := similarity_chunkDatasets dice encodings hi hj
  exact ⟨hi0, hj0, List.mem_of_getElem? hi, List.mem_of_getElem? hj, hsim ▸ hthreshold⟩

/-- A match is found when the comparison asks for as many matches as there are such records. -/
theorem chunkEmits_of_countP_le (anonlink : DiceCoefficientAccelerated dice)
    (hi : i ∈ chunkIds db chunks.1) (hj : j ∈ chunkIds db chunks.2)
    (hsimilar : threshold ≤ dice (encodingOf encodings chunks.1.dataproviderId i)
      (encodingOf encodings chunks.2.dataproviderId j))
    (hcount : ((chunkIds db chunks.2).countP fun j' =>
        dice (encodingOf encodings chunks.1.dataproviderId i)
          (encodingOf encodings chunks.2.dataproviderId j) ≤
        dice (encodingOf encodings chunks.1.dataproviderId i)
          (encodingOf encodings chunks.2.dataproviderId j')) ≤
      min (chunkIds db chunks.1).length (chunkIds db chunks.2).length) :
    ChunkEmits anonlink db encodings threshold chunks
      ((chunks.1.datasetIndex, i), (chunks.2.datasetIndex, j)) := by
  obtain ⟨a, ha⟩ := List.mem_iff_getElem?.mp hi
  obtain ⟨b, hb⟩ := List.mem_iff_getElem?.mp hj
  have hsim := similarity_chunkDatasets dice encodings ha hb
  have halt : a < (chunkDatasets db encodings chunks).1.length := by
    have hlt := (List.getElem?_eq_some_iff.mp ha).1
    rw [chunkDatasets, length_chunkEncodings]
    exact hlt
  have hblt : b < (chunkDatasets db encodings chunks).2.length := by
    have hlt := (List.getElem?_eq_some_iff.mp hb).1
    rw [chunkDatasets, length_chunkEncodings]
    exact hlt
  have hthreshold := hsim.symm ▸ hsimilar
  have hmatching : b ∈ matching dice (chunkDatasets db encodings chunks) threshold a :=
    List.mem_filter.mpr ⟨List.mem_range.mpr hblt, decide_eq_true hthreshold⟩
  have hbest := anonlink.best chunks (chunkDatasets db encodings chunks) threshold
    (min (chunkIds db chunks.1).length (chunkIds db chunks.2).length) a halt
  have hfew := (countP_matching ha hb hthreshold).trans_le hcount
  have hchosen := hbest.mem_of_countP_le hmatching hfew
  obtain ⟨s, hs, hright⟩ := List.mem_map.mp hchosen
  obtain ⟨hrun, hleft⟩ := List.mem_filter.mp hs
  have hleft : s.2.1 = a := of_decide_eq_true hleft
  exact ⟨s, hrun, rfl, rfl, hleft ▸ ha, hright ▸ hb⟩

end Chunks

section Scheduled
variable {dice : Bytes → Bytes → ℚ} {db : Database} {dpIds : List DpId} {size : ℕ}
  {encodings : DpId → List Bytes} {threshold : ℚ} {split : SplitToChunks} {chunkSizeAim : ℕ}
  {chunks : ChunkPair} {pair : RecordId × RecordId}

theorem mem_block_of_mem_chunkIds {chunk : ChunkInfo} {i : ℕ} (hi : i ∈ chunkIds db chunk) :
    i ∈ blockEntityIds db chunk.dataproviderId chunk.blockId :=
  List.mem_of_mem_drop (List.mem_of_mem_take hi)

theorem qualifies_of_chunkEmits {anonlink : DiceCoefficientAccelerated dice}
    (hpiece : OfPiece split db dpIds chunkSizeAim chunks)
    (h : ChunkEmits anonlink db encodings threshold chunks pair) :
    Qualifies dice db dpIds encodings threshold pair := by
  obtain ⟨hi0, hj0, hi, hj, hsimilar⟩ := similar_of_chunkEmits h
  obtain ⟨hlt, hdp1, hdp2, name, count1, count2, hmem1, hmem2, _⟩ := hpiece
  rw [← hi0] at hlt hdp1
  rw [← hj0] at hlt hdp2
  exact ⟨hlt, _, _, hdp1, hdp2, ⟨name, ⟨_, _, hmem1, mem_block_of_mem_chunkIds hi⟩,
    _, _, hmem2, mem_block_of_mem_chunkIds hj⟩, hsimilar⟩

/-- A pair that is not cut off is found in the chunk pair that asks for enough matches. -/
theorem chunkEmits_of_asked (anonlink : DiceCoefficientAccelerated dice)
    (hqualifies : Qualifies dice db dpIds encodings threshold pair)
    (hasked : ∀ dp1 dp2, dpIds[pair.1.1]? = some dp1 → dpIds[pair.2.1]? = some dp2 →
      Asked dice db encodings split chunkSizeAim dp1 dp2 pair.1.2 pair.2.2) :
    ∃ chunks, OfPiece split db dpIds chunkSizeAim chunks ∧
      ChunkEmits anonlink db encodings threshold chunks pair := by
  obtain ⟨hlt, dp1, dp2, hdp1, hdp2, _, hsimilar⟩ := hqualifies
  obtain ⟨name, blockId1, count1, blockId2, count2, hmem1, hmem2, piece, hpiece, hi, hj, hcount⟩ :=
    hasked dp1 dp2 hdp1 hdp2
  let chunks : ChunkPair :=
    (⟨dp1, pair.1.1, piece.1, blockId1⟩, ⟨dp2, pair.2.1, piece.2, blockId2⟩)
  have hof : OfPiece split db dpIds chunkSizeAim chunks :=
    ⟨hlt, hdp1, hdp2, name, count1, count2, hmem1, hmem2, hpiece⟩
  have hfound : ChunkEmits anonlink db encodings threshold chunks pair :=
    chunkEmits_of_countP_le anonlink hi hj hsimilar hcount
  exact ⟨chunks, hof, hfound⟩

/-- The records of a pair are left out together where they are found at the given indices. -/
def Holds (db : Database) (pair : RecordId × RecordId) (call : ChunkPair) (a b : ℕ) : Prop :=
  (chunkIds db call.1)[a]? = some pair.1.2 ∧ (chunkIds db call.2)[b]? = some pair.2.2

/-- A pair that is cut off in each chunk pair may not be found. -/
theorem not_chunkEmits_of_not_asked (h : StoredDatasets db dpIds size encodings)
    {dp1 dp2 : DpId} (hdp1 : dpIds[pair.1.1]? = some dp1) (hdp2 : dpIds[pair.2.1]? = some dp2)
    (hasked : ¬ Asked dice db encodings split chunkSizeAim dp1 dp2 pair.1.2 pair.2.2)
    (hpiece : OfPiece split db dpIds chunkSizeAim chunks) :
    ¬ ChunkEmits (.avoiding dice (Holds db pair)) db encodings threshold chunks pair := by
  intro hemits
  obtain ⟨_, _, hiIn, hjIn, _⟩ := similar_of_chunkEmits hemits
  obtain ⟨s, hs, hi0, hj0, hi, hj⟩ := hemits
  obtain ⟨_, hdp1', hdp2', name, count1, count2, hmem1, hmem2, hranges⟩ := hpiece
  rw [← hi0, hdp1, Option.some.injEq] at hdp1'
  rw [← hj0, hdp2, Option.some.injEq] at hdp2'
  have hthreshold := DiceCoefficientAccelerated.threshold_le _ hs
  have hmatching := DiceCoefficientAccelerated.mem_matching _ hs
  have hmany : min (chunkIds db chunks.1).length (chunkIds db chunks.2).length <
      (matching dice (chunkDatasets db encodings chunks) threshold s.2.1).countP fun b' =>
        similarity dice (chunkDatasets db encodings chunks) s.2.1 s.2.2 ≤
          similarity dice (chunkDatasets db encodings chunks) s.2.1 b' := by
    rw [countP_matching hi hj hthreshold]
    by_contra hfew
    rw [not_lt] at hfew
    apply hasked
    subst hdp1' hdp2'
    exact ⟨name, _, count1, _, count2, hmem1, hmem2, _, hranges, hiIn, hjIn, hfew⟩
  obtain ⟨other, hother, hleft⟩ := MostSimilar.exists_chosen_without
    (nodup_matching dice (chunkDatasets db encodings chunks) threshold s.2.1) hmatching hmany
  apply DiceCoefficientAccelerated.not_avoid hs ⟨other, hother, ?_⟩ ⟨hi, hj⟩
  rintro b hb ⟨-, hat⟩
  have hdp : chunks.2.dataproviderId ∈ dpIds := hdp2' ▸ List.mem_of_getElem? hdp2
  have hlt := (List.getElem?_eq_some_iff.mp hat).1
  have hsame : b = s.2.2 :=
    (List.getElem?_inj hlt (h.nodup_chunkIds hdp hmem2)).mp (hat.trans hj.symm)
  exact hleft (hsame ▸ hb)

/-- All pairs that qualify are emitted, whichever matches a comparison returns of those that it
may, if and only if none of them is cut off. -/
theorem complete_iff (dice : Bytes → Bytes → ℚ) (h : StoredDatasets db dpIds size encodings)
    (so : SetOrder) (split : SplitToChunks) (threshold : ℚ) (haim : 1 ≤ chunkSizeAim) :
    ∃ packages, Scheduled so split db dpIds chunkSizeAim packages ∧
      ((∀ anonlink : DiceCoefficientAccelerated dice,
          Complete db dpIds encodings threshold anonlink size packages) ↔
        NothingCutOff dice db dpIds encodings threshold split chunkSizeAim) := by
  obtain ⟨blocks, packages, hblocks, hpackages, _⟩ :=
    (blockMetadata db dpIds h.distinct).tagged_packages so split haim
  have hscheduled : Scheduled so split db dpIds chunkSizeAim packages :=
    ⟨⟨blocks, hblocks, hpackages⟩⟩
  refine ⟨packages, hscheduled, ?_, ?_⟩
  · intro hcomplete pair hqualifies dp1 dp2 hdp1 hdp2
    by_contra hasked
    have hemits := (hcomplete (.avoiding dice (Holds db pair)) pair).mpr hqualifies
    obtain ⟨chunks, hpiece, hfound⟩ := (scheduled_emits_iff _ h hscheduled).mp hemits
    exact not_chunkEmits_of_not_asked h hdp1 hdp2 hasked hpiece hfound
  · intro hnone anonlink pair
    rw [scheduled_emits_iff anonlink h hscheduled]
    constructor
    · rintro ⟨chunks, hpiece, hfound⟩
      exact qualifies_of_chunkEmits hpiece hfound
    · intro hqualifies
      exact chunkEmits_of_asked anonlink hqualifies (hnone pair hqualifies)

end Scheduled

def popcount (e : Bytes) : ℕ := (e.map fun b => (List.range 8).countP b.toNat.testBit).sum

def diceCoefficient (e1 e2 : Bytes) : ℚ :=
  2 * popcount (List.zipWith (· &&& ·) e1 e2) / (popcount e1 + popcount e2)

def equalEncodings (dpId : DpId) : List Bytes := if dpId = 1 then [[15]] else [[15], [15]]

/-- One record of a data provider and two of another, all with the same encoding. -/
def oneToTwo : Database where
  projects := []
  dataproviders := []
  uploads := []
  blocks := [⟨1, ['1'], 1, 1, .ready⟩, ⟨2, ['1'], 2, 2, .ready⟩]
  encodings := [⟨(1 <<< 32) + 0, [0, 0, 0, 0, 15], 1⟩, ⟨(2 <<< 32) + 0, [0, 0, 0, 0, 15], 2⟩,
    ⟨(2 <<< 32) + 1, [0, 0, 0, 1, 15], 2⟩]
  encodingblocks := [⟨1, 0, (1 <<< 32) + 0, 1⟩, ⟨2, 0, (2 <<< 32) + 0, 2⟩,
    ⟨2, 1, (2 <<< 32) + 1, 2⟩]
  nextBlockId := 3

theorem storedDatasets_oneToTwo : StoredDatasets oneToTwo [1, 2] 1 equalEncodings where
  distinct := by decide
  length := by decide
  rows := by
    intro dpId hdp
    have hdp : dpId = 1 ∨ dpId = 2 := by simpa using hdp
    rcases hdp with rfl | rfl
    · exact ⟨by decide, by decide, by decide, by decide⟩
    · exact ⟨by decide, by decide, by decide, by decide⟩
  names := by decide
  blocks := by decide

theorem qualifies_oneToTwo : ∀ j ∈ [0, 1],
    Qualifies diceCoefficient oneToTwo [1, 2] equalEncodings (3 / 4) ((0, 0), (1, j)) := by
  intro j hj
  have hsimilar : (3 / 4 : ℚ) ≤ diceCoefficient [15] [15] := by decide +kernel
  have hleft : InBlock oneToTwo 1 ['1'] 0 := ⟨1, 1, by decide, by decide⟩
  have hencodings : ∀ j ∈ [0, 1], encodingOf equalEncodings 2 j = [15] := by decide
  have hencoding := hencodings j hj
  have hright : InBlock oneToTwo 2 ['1'] j := by
    refine ⟨2, 2, by decide, ?_⟩
    revert j
    decide
  refine ⟨Nat.zero_lt_one, 1, 2, rfl, rfl, ⟨['1'], hleft, hright⟩, ?_⟩
  change _ ≤ diceCoefficient (encodingOf equalEncodings 1 0) (encodingOf equalEncodings 2 j)
  rw [hencoding]
  exact hsimilar

theorem ofPiece_oneToTwo {chunks : ChunkPair}
    (h : OfPiece unitSplit oneToTwo [1, 2] 100 chunks) (h1 : chunks.1.datasetIndex = 0)
    (h2 : chunks.2.datasetIndex = 1) : chunks = (⟨1, 0, (0, 1), 1⟩, ⟨2, 1, (0, 2), 2⟩) := by
  obtain ⟨⟨dp1, index1, range1, blockId1⟩, dp2, index2, range2, blockId2⟩ := chunks
  obtain ⟨_, hdp1, hdp2, name, count1, count2, hmem1, hmem2, hpiece⟩ := h
  dsimp only at h1 h2 hdp1 hdp2 hmem1 hmem2 hpiece
  subst h1 h2
  obtain rfl : 1 = dp1 := Option.some.inj hdp1
  obtain rfl : 2 = dp2 := Option.some.inj hdp2
  have hrow1 : oneToTwo.getBlockMetadata 1 = [(['1'], 1, 1)] := by decide
  have hrow2 : oneToTwo.getBlockMetadata 2 = [(['1'], 2, 2)] := by decide
  rw [hrow1, List.mem_singleton] at hmem1
  rw [hrow2, List.mem_singleton] at hmem2
  simp only [Prod.mk.injEq] at hmem1 hmem2
  obtain ⟨-, rfl, rfl⟩ := hmem1
  obtain ⟨-, rfl, rfl⟩ := hmem2
  have hpieces : pieces unitSplit 100 1 2 = [((0, 1), (0, 2))] := rfl
  have hranges : (range1, range2) ∈ pieces unitSplit 100 1 2 := hpiece
  rw [hpieces, List.mem_singleton, Prod.mk.injEq] at hranges
  rw [hranges.1, hranges.2]

/-- The one record is similar to two records, and one match of it is asked for. -/
theorem not_complete_oneToTwo : ∃ packages,
    Scheduled .same unitSplit oneToTwo [1, 2] 100 packages ∧
      ∀ anonlink : DiceCoefficientAccelerated diceCoefficient,
        ¬ Complete oneToTwo [1, 2] equalEncodings (3 / 4) anonlink 1 packages := by
  obtain ⟨blocks, packages, hblocks, hpackages, _⟩ :=
    (blockMetadata oneToTwo [1, 2] (by decide)).tagged_packages .same unitSplit
      (show 1 ≤ 100 by decide)
  have hscheduled : Scheduled .same unitSplit oneToTwo [1, 2] 100 packages :=
    ⟨⟨blocks, hblocks, hpackages⟩⟩
  refine ⟨packages, hscheduled, ?_⟩
  intro anonlink hcomplete
  let datasets : List Bytes × List Bytes := ([[15]], [[15], [15]])
  let call : ChunkPair := (⟨1, 0, (0, 1), 1⟩, ⟨2, 1, (0, 2), 2⟩)
  let chosen := ((anonlink.run call datasets (3 / 4) 1).filter fun r => r.2.1 = 0).map
    fun r => r.2.2
  have hfound : ∀ j ∈ [0, 1], j ∈ chosen := by
    intro j hj
    have hemits := (hcomplete ((0, 0), (1, j))).mpr (qualifies_oneToTwo j hj)
    obtain ⟨chunks, hpiece, s, hs, h1, h2, hi, hj'⟩ :=
      (scheduled_emits_iff anonlink storedDatasets_oneToTwo hscheduled).mp hemits
    obtain rfl := ofPiece_oneToTwo hpiece h1.symm h2.symm
    have hleft : s.2.1 = 0 := by
      have hlt := (List.getElem?_eq_some_iff.mp hi).1
      have hone : (chunkIds oneToTwo call.1).length = 1 := by decide
      exact Nat.lt_one_iff.mp (hone ▸ hlt)
    have hids : chunkIds oneToTwo call.2 = [0, 1] := by decide
    have hright : s.2.2 = j := by
      change (chunkIds oneToTwo call.2)[s.2.2]? = some j at hj'
      rw [hids] at hj'
      have hlt := (List.getElem?_eq_some_iff.mp hj').1
      have hcases : s.2.2 = 0 ∨ s.2.2 = 1 := by
        simp only [List.length_cons, List.length_nil] at hlt
        omega
      rcases hcases with h0 | h1
      · rw [h0] at hj' ⊢
        exact Option.some.inj hj'
      · rw [h1] at hj' ⊢
        exact Option.some.inj hj'
    have hrun : s ∈ anonlink.run call datasets (3 / 4) 1 := hs
    exact List.mem_map.mpr ⟨s, List.mem_filter.mpr ⟨hrun, decide_eq_true hleft⟩, hright⟩
  have hbest := anonlink.best call datasets (3 / 4) 1 0 Nat.zero_lt_one
  have hboth : [0, 1].length ≤ chosen.length :=
    (List.Nodup.subperm (by decide) hfound).length_le
  have hfew : chosen.length ≤ 1 := hbest.length.trans_le (min_le_left _ _)
  simp only [List.length_cons, List.length_nil] at hboth
  omega

theorem complete_iff_oneToTwo : ∃ packages,
    Scheduled .same unitSplit oneToTwo [1, 2] 100 packages ∧
      ((∀ anonlink : DiceCoefficientAccelerated diceCoefficient,
          Complete oneToTwo [1, 2] equalEncodings (3 / 4) anonlink 1 packages) ↔
        NothingCutOff diceCoefficient oneToTwo [1, 2] equalEncodings (3 / 4) unitSplit 100) :=
  complete_iff diceCoefficient storedDatasets_oneToTwo .same unitSplit (3 / 4) (by decide)

end EntityService.Tasks.Similarity
