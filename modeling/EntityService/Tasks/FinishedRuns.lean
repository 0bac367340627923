import EntityService.Tasks.Solver
import EntityService.Views.Results

/-! The results that the parties download once the tasks of a run have ended. -/
namespace EntityService.Tasks.Solver
open Lib Service ScoreFile Permutation Cache Views
open Aggregation (CandidatePair CandidateFormat)

theorem abortIfRunDoesntExist_of_row {s : Storage} {projectId : ProjectId} {runId : RunId}
    {row : RunRow} (hrow : s.runs.get? runId = some row) (hproject : row.project = projectId) :
    abortIfRunDoesntExist s projectId runId = .ok () ∧ s.getRunState runId = .ok row.state := by
  refine ⟨ensure_eq_ok.mpr (checkRunExists_iff.mpr ⟨row, hrow, hproject⟩), ?_⟩
  unfold Storage.getRunState
  rw [hrow]
  rfl

theorem runResultGet_of_completed {s : Storage} {projectId : ProjectId} {runId : RunId}
    {row : RunRow} (hrow : s.runs.get? runId = some row) (hproject : row.project = projectId)
    (hcompleted : row.state = .completed) (token : Option Token) (address : Bool) :
    runResultGet s projectId runId token address = getResult s projectId runId token address := by
  obtain ⟨hexists, hstate⟩ := abortIfRunDoesntExist_of_row hrow hproject
  unfold runResultGet
  rw [hexists, ok_bind, hstate, ok_bind, hcompleted]

theorem runResultGet_of_error {s : Storage} {projectId : ProjectId} {runId : RunId}
    {row : RunRow} (hrow : s.runs.get? runId = some row) (hproject : row.project = projectId)
    (herror : row.state = .error) (token : Option Token) (address : Bool) :
    runResultGet s projectId runId token address =
      .error (.problem 500 "Error during computation of run") := by
  obtain ⟨hexists, hstate⟩ := abortIfRunDoesntExist_of_row hrow hproject
  unfold runResultGet
  rw [hexists, ok_bind, hstate, ok_bind, herror]

structure ProjectOfType (db : Database) (accessTokens : Dict ProjectId Token)
    (projectId : ProjectId) (accessToken : Token) (resultType : ResultType) : Prop where
  projects : (db.projects.map ProjectRow.projectId).Nodup
  project : ∃ row ∈ db.projects, row.projectId = projectId ∧ row.resultType = resultType
  access : accessTokens.get? projectId = some accessToken

/-- A project for permutations with the uploads of its two data providers and tokens that differ. -/
structure TwoParties (db : Database) (accessTokens : Dict ProjectId Token) (projectId : ProjectId)
    (accessToken : Token) (dpA dpB : DataproviderRow) (uploadA uploadB : UploadRow) : Prop
    extends ProjectOfType db accessTokens projectId accessToken .permutations where
  providers : (db.dataproviders.filter fun d => d.project = projectId).Perm [dpA, dpB]
  order : dpA.id < dpB.id
  uploaded : dpA.uploaded = .done ∧ dpB.uploaded = .done
  uploadsA : (db.uploads.filter fun u => u.dp = dpA.id) = [uploadA]
  uploadsB : (db.uploads.filter fun u => u.dp = dpB.id) = [uploadB]
  tokens : uploadA.token ≠ uploadB.token
  receipts : accessToken ≠ uploadA.token ∧ accessToken ≠ uploadB.token

section Parties
variable {s : Storage} {projectId : ProjectId} {runId : RunId} {accessToken : Token}
  {dpA dpB : DataproviderRow} {uploadA uploadB : UploadRow}

section OfType
variable {resultType : ResultType}
  (h : ProjectOfType s.db s.accessTokens projectId accessToken resultType)
include h

theorem ProjectOfType.getResultType_eq : s.getResultType projectId = .ok resultType := by
  obtain ⟨row, hrow, rfl, htype⟩ := h.project
  exact getResultType_eq_ok.mpr ⟨row, Database.findProject_of_mem h.projects hrow, htype⟩

theorem ProjectOfType.checkProjectAuth_iff {token : Option Token} :
    s.checkProjectAuth projectId token = true ↔ token = some accessToken := by
  obtain ⟨row, hrow, rfl, -⟩ := h.project
  exact Views.checkProjectAuth_iff h.projects hrow h.access token

theorem ProjectOfType.getResult_groups (hgroups : resultType = .groups) {groups : List Group}
    (hresult : s.getRunResult runId = .ok groups) (token : Option Token) (address : Bool) :
    getResult s projectId runId token address =
      if token = some accessToken then .ok { noResult with groups := some groups }
      else .error (.problem 403 INVALID_ACCESS_MSG) := by
  subst hgroups
  unfold getResult getAuthorizationTokenTypeOrAbort authorizationTokenType
  rw [h.getResultType_eq, ok_bind]
  by_cases htoken : token = some accessToken
  · rw [if_pos htoken, if_pos (h.checkProjectAuth_iff.mpr htoken)]
    simp only [ok_bind, ensure, or_true, if_true, hresult, pure_eq_ok]
  · rw [if_neg htoken, if_neg fun hauth => htoken (h.checkProjectAuth_iff.mp hauth)]
    by_cases hreceipt : (s.selectDataproviderId projectId token).isSome
    · rw [if_pos hreceipt]
      simp [ensure]
    · rw [if_neg hreceipt]
      rfl

end OfType

variable (h : TwoParties s.db s.accessTokens projectId accessToken dpA dpB uploadA uploadB)
include h

theorem TwoParties.providerUploads_perm :
    (s.db.providerUploads projectId).Perm [(dpA, uploadA), (dpB, uploadB)] := by
  have hperm := h.providers.flatMap_right fun d =>
    (s.db.uploads.filter fun u => u.dp = d.id).map fun u => (d, u)
  rw [List.flatMap_cons, List.flatMap_cons, List.flatMap_nil, h.uploadsA, h.uploadsB] at hperm
  exact hperm

theorem TwoParties.getProjectDatasetSizes_eq :
    getProjectDatasetSizes s projectId = [uploadA.count, uploadB.count] := by
  have hsorted : ([(dpA, uploadA), (dpB, uploadB)] : List (DataproviderRow × UploadRow)).Pairwise
      fun r q => r.1.id < q.1.id := by simpa using h.order
  unfold getProjectDatasetSizes
  rw [insertionSort_eq_of_perm h.providerUploads_perm.symm hsorted]
  rfl

theorem TwoParties.getDataproviderIds_eq : s.getDataproviderIds projectId = [dpA.id, dpB.id] := by
  have hdone : (s.db.dataproviders.filter fun d => d.project = projectId ∧ d.uploaded = .done) =
      (s.db.dataproviders.filter fun d => d.project = projectId).filter
        fun d => d.uploaded = .done := by
    rw [List.filter_filter]
    refine List.filter_congr fun d _ => ?_
    rw [Bool.decide_and, Bool.and_comm]
  have hperm : ((s.db.dataproviders.filter fun d => d.project = projectId).filter
      fun d => d.uploaded = .done).Perm [dpA, dpB] := by
    have hfilter := h.providers.filter fun d => d.uploaded = .done
    simpa [h.uploaded.1, h.uploaded.2] using hfilter
  unfold Storage.getDataproviderIds
  rw [hdone]
  have hsorted : [dpA.id, dpB.id].Pairwise fun a b => a < b := by simpa using h.order
  exact insertionSort_eq_of_perm (hperm.map DataproviderRow.id).symm hsorted

theorem TwoParties.getSmallerDatasetSize_eq :
    s.getSmallerDatasetSizeForProject projectId = some (min uploadA.count uploadB.count) := by
  have hcounts := h.providerUploads_perm.map fun r => r.2.count
  unfold Storage.getSmallerDatasetSizeForProject
  rcases List.perm_pair.mp hcounts with heq | heq
  · rw [heq]
    rfl
  · rw [heq, min_comm]
    rfl

/-- A receipt token is good for its data provider. -/
theorem TwoParties.selectDataproviderId_eq :
    s.selectDataproviderId projectId (some uploadA.token) = some dpA.id ∧
      s.selectDataproviderId projectId (some uploadB.token) = some dpB.id := by
  have hdpA : uploadA.dp = dpA.id := by
    have hmem : uploadA ∈ s.db.uploads.filter fun u => u.dp = dpA.id := by
      rw [h.uploadsA]
      exact List.mem_singleton_self uploadA
    exact of_decide_eq_true (List.mem_filter.mp hmem).2
  have hdpB : uploadB.dp = dpB.id := by
    have hmem : uploadB ∈ s.db.uploads.filter fun u => u.dp = dpB.id := by
      rw [h.uploadsB]
      exact List.mem_singleton_self uploadB
    exact of_decide_eq_true (List.mem_filter.mp hmem).2
  unfold Storage.selectDataproviderId
  rcases List.perm_pair.mp h.providerUploads_perm with heq | heq
  · rw [heq]
    simp [h.tokens, hdpA, hdpB]
  · rw [heq]
    simp [h.tokens.symm, hdpA, hdpB]

theorem TwoParties.runResultGet_mask {row : RunRow} (hrow : s.runs.get? runId = some row)
    (hproject : row.project = projectId) (hcompleted : row.state = .completed) {mask : List ℕ}
    (hmask : s.getPermutationUnencryptedMask projectId runId = .ok mask) (address : Bool) :
    runResultGet s projectId runId (some accessToken) address =
      .ok { noResult with mask := some mask } := by
  refine runResultGet_eq_ok.mpr ⟨⟨row, hrow, hproject, hcompleted⟩, ?_⟩
  have hauth : authorizationTokenType s projectId (some accessToken) = .ok .resultToken :=
    if_pos (h.checkProjectAuth_iff.mpr rfl)
  simp only [getResult, getAuthorizationTokenTypeOrAbort, h.getResultType_eq, hauth, ok_bind,
    getPermutationsResult, hmask, ensure, true_or, if_true, pure_eq_ok]

/-- The permutation of a data provider is for its receipt token. -/
theorem TwoParties.runResultGet_permutation {row : RunRow} (hrow : s.runs.get? runId = some row)
    (hproject : row.project = projectId) (hcompleted : row.state = .completed) {token : Token}
    (htoken : accessToken ≠ token) {dpId : DpId}
    (hdp : s.selectDataproviderId projectId (some token) = some dpId) {permutation : List ℕ}
    (hpermutation : s.getPermutationResult runId dpId = .ok permutation) (address : Bool) :
    runResultGet s projectId runId (some token) address =
      .ok { noResult with
        permutation := some permutation, rows := some (min uploadA.count uploadB.count) } := by
  refine runResultGet_eq_ok.mpr ⟨⟨row, hrow, hproject, hcompleted⟩, ?_⟩
  have hauth : authorizationTokenType s projectId (some token) = .ok .receiptToken := by
    unfold authorizationTokenType
    rw [if_neg, hdp]
    · rfl
    · intro hresult
      exact htoken (Option.some.inj (h.checkProjectAuth_iff.mp hresult)).symm
  simp only [getResult, getAuthorizationTokenTypeOrAbort, h.getResultType_eq, hauth, ok_bind,
    getPermutationsResult, hdp, orRaise, Option.elim_some, hpermutation,
    h.getSmallerDatasetSize_eq, ensure, true_or, if_true, pure_eq_ok]

end Parties
section Run
variable {s : Storage} {projectId : ProjectId} {runId : RunId}

structure WithoutResults (s : Storage) (projectId : ProjectId) (runId : RunId) : Prop where
  run : ∃ row, s.runs.get? runId = some row ∧ row.project = projectId
  runResults : ∀ r ∈ s.runResults, r.runId ≠ runId
  permutations : ∀ r ∈ s.permutations, r.run ≠ runId
  permutationMasks : ∀ r ∈ s.permutationMasks, r.run ≠ runId

theorem WithoutResults.runExists (h : WithoutResults s projectId runId) : s.RunExists runId := by
  obtain ⟨row, hrow, -⟩ := h.run
  exact Dict.mem_keys_of_get? hrow

/-- A query that finds no earlier row finds the first of the new ones. -/
theorem find?_append_of_new {ρ : Type} {rows : List ρ} {p : ρ → Bool}
    (h : ∀ r ∈ rows, p r = false) (new : List ρ) : (rows ++ new).find? p = new.find? p := by
  have hnone : rows.find? p = none :=
    List.find?_eq_none.mpr fun r hr he => Bool.false_ne_true ((h r hr).symm.trans he)
  rw [List.find?_append, hnone, Option.none_or]

theorem getRunResult_of_append {rows : List RunResultRow} {groups : List Group}
    (hrows : s.runResults = rows ++ [⟨runId, groups⟩]) (h : ∀ r ∈ rows, r.runId ≠ runId) :
    s.getRunResult runId = .ok groups := by
  unfold Storage.getRunResult
  rw [hrows, find?_append_of_new fun r hr => decide_eq_false (h r hr)]
  simp [orRaise]

theorem getPermutationResult_of_append {rows : List PermutationRow} {dpA dpB : DpId} {a b : List ℕ}
    (hrows : s.permutations = rows ++ [⟨dpA, runId, a⟩, ⟨dpB, runId, b⟩])
    (h : ∀ r ∈ rows, r.run ≠ runId) (hne : dpA ≠ dpB) :
    s.getPermutationResult runId dpA = .ok a ∧ s.getPermutationResult runId dpB = .ok b := by
  have hnew : ∀ dpId, ∀ r ∈ rows, decide (r.dp = dpId ∧ r.run = runId) = false :=
    fun dpId r hr => decide_eq_false fun he => h r hr he.2
  unfold Storage.getPermutationResult
  constructor
  · rw [hrows, find?_append_of_new (hnew dpA)]
    simp [orRaise]
  · rw [hrows, find?_append_of_new (hnew dpB)]
    simp [orRaise, hne]

theorem getPermutationUnencryptedMask_of_append {rows : List PermutationMaskRow} {mask : List ℕ}
    (hrows : s.permutationMasks = rows ++ [⟨projectId, runId, mask⟩])
    (h : ∀ r ∈ rows, r.run ≠ runId) :
    s.getPermutationUnencryptedMask projectId runId = .ok mask := by
  unfold Storage.getPermutationUnencryptedMask
  rw [hrows, find?_append_of_new fun r hr => decide_eq_false fun he => h r hr he.2]
  simp [orRaise]

theorem permuteMappingData_ok (shuffles : Shuffles) {n₁ n₂ : ℕ} {groups : List Group}
    {dpA dpB : DpId} (hgroups : s.getRunResult runId = .ok groups)
    (hmatching : Permutation.Matching n₁ n₂ groups)
    (hproviders : s.getDataproviderIds projectId = [dpA, dpB])
    (hrun : s.RunExists runId) (hproject : projectId ∈ s.db.projects.map ProjectRow.projectId) :
    ∃ a b mask, permuteMappingData shuffles projectId runId n₁ n₂ s =
        ({ s with
            permutations := s.permutations ++ [⟨dpA, runId, a⟩, ⟨dpB, runId, b⟩]
            permutationMasks := s.permutationMasks ++ [⟨projectId, runId, mask⟩] }, .ok ()) ∧
      Permuted n₁ n₂ groups a b mask := by
  obtain ⟨a, b, mask, hpermute, hpermuted⟩ := permuteMapping_ok shuffles hmatching
  refine ⟨a, b, mask, Action.atomic_of_ok ?_, hpermuted⟩
  have hmem : ∀ dpId ∈ [dpA, dpB], dpId ∈ s.db.dataproviders.map DataproviderRow.id :=
    fun dpId hdp => mem_of_getDataproviderIds (hproviders ▸ hdp)
  have hfirst := insertPermutation_ok (l := a) hrun (hmem dpA (by simp))
  have hsecond := insertPermutation_ok (l := b)
    (s := { s with permutations := s.permutations ++ [⟨dpA, runId, a⟩] }) hrun (hmem dpB (by simp))
  simp only [hgroups, hpermute, hproviders, ok_bind, List.getElem?_cons_zero,
    List.getElem?_cons_succ, orRaise, Option.elim_some, hfirst, hsecond]
  unfold Storage.insertPermutationMask
  rw [(ensure_eq_ok (a := ())).mpr ⟨hrun, hproject⟩, List.append_assoc]
  rfl

theorem get?_recorded {row : RunRow} (hrow : s.runs.get? runId = some row)
    (mergedFilename : FileName) :
    (recorded s runId mergedFilename).runs.get? runId = some (progressStage row) := by
  change (s.toServer.modifyRun runId progressStage).runs.get? runId = some (progressStage row)
  rw [get?_modifyRun, if_pos rfl, hrow]
  rfl

theorem runExists_recorded (h : s.RunExists runId) (mergedFilename : FileName) :
    (recorded s runId mergedFilename).RunExists runId := by
  obtain ⟨row, hrow⟩ := Dict.mem_keys_iff.mp h
  exact Dict.mem_keys_of_get? (get?_recorded hrow mergedFilename)

end Run

section Finished
variable {σ : Type} [LinearOrder σ] {fmt : CandidateFormat σ} {s : Storage}
  {projectId : ProjectId} {runId : RunId} {mergedFilename : FileName}

/-- The tasks after a score file make permutations for the two parties. Each downloads its own one
with its receipt token, and the mask goes to the access token. A row that the mask includes has a
candidate pair in both permuted datasets, one that it leaves out has no record of a group. -/
theorem finishRun_permutations (anonlink : AnonlinkSolver σ) (solverMaxCandidatePairs : ℕ)
    (shuffles : Shuffles) {accessToken : Token} {dpA dpB : DataproviderRow}
    {uploadA uploadB : UploadRow}
    (h : TwoParties s.db s.accessTokens projectId accessToken dpA dpB uploadA uploadB)
    (hnew : WithoutResults s projectId runId) {cs : List (CandidatePair σ)}
    (hscores : HasScores fmt s mergedFilename cs)
    (htwo : OfTwo uploadA.count.toNat uploadB.count.toNat cs)
    (hfew : (anonlink.mergeSimilarities cs).length ≤ solverMaxCandidatePairs) (address : Bool) :
    ∃ s' groups a b mask,
      finishRun fmt anonlink solverMaxCandidatePairs shuffles projectId runId mergedFilename s =
        (s', .ok ()) ∧
      runResultGet s' projectId runId (some accessToken) address =
        .ok { noResult with mask := some mask } ∧
      runResultGet s' projectId runId (some uploadA.token) address =
        .ok { noResult with
          permutation := some a, rows := some (min uploadA.count uploadB.count) } ∧
      runResultGet s' projectId runId (some uploadB.token) address =
        .ok { noResult with
          permutation := some b, rows := some (min uploadA.count uploadB.count) } ∧
      Solution cs groups ∧
      Permuted uploadA.count.toNat uploadB.count.toNat groups a b mask := by
  have htype := h.getResultType_eq
  have hne : ResultType.permutations ≠ .similarityScores := by decide
  have hexists := runExists_recorded hnew.runExists mergedFilename
  have hrecorded := recordScores_ok htype hne hnew.runExists mergedFilename
  rw [h.getProjectDatasetSizes_eq] at hrecorded
  obtain ⟨groups, hsolved, hsolution⟩ := solverTask_ok (s := recorded s runId mergedFilename)
      hscores hfew runId
  have hsaved := saveAndPermute_ok (s := recorded s runId mergedFilename) htype
      hexists groups
  have hgroups : Storage.getRunResult { recorded s runId mergedFilename with
      runResults := s.runResults ++ [⟨runId, groups⟩] } runId = .ok groups :=
    getRunResult_of_append rfl hnew.runResults
  have hproject : projectId ∈ s.db.projects.map ProjectRow.projectId := by
    obtain ⟨row, hrow, rfl, -⟩ := h.project
    exact List.mem_map_of_mem hrow
  obtain ⟨a, b, mask, hpermute, hpermuted⟩ := permuteMappingData_ok shuffles hgroups
    (hsolution.matching htwo) h.getDataproviderIds_eq hexists hproject
  obtain ⟨row, hrow, hrowProject⟩ := hnew.run
  have hrecordedRow := get?_recorded hrow mergedFilename
  let saved : Storage := { recorded s runId mergedFilename with
    runResults := s.runResults ++ [⟨runId, groups⟩]
    permutations := s.permutations ++ [⟨dpA.id, runId, a⟩, ⟨dpB.id, runId, b⟩]
    permutationMasks := s.permutationMasks ++ [⟨projectId, runId, mask⟩] }
  let final := (markRunComplete runId saved).1
  have hfinalRow : final.runs.get? runId = some (markComplete (progressStage row)) := by
    change (saved.toServer.modifyRun runId markComplete).runs.get? runId = _
    rw [get?_modifyRun, if_pos rfl]
    exact congrArg (Option.map markComplete) hrecordedRow
  have hfinal : TwoParties final.db final.accessTokens projectId accessToken dpA dpB uploadA
      uploadB := h
  obtain ⟨hdpA, hdpB⟩ := hfinal.selectDataproviderId_eq
  obtain ⟨ha, hb⟩ := getPermutationResult_of_append (s := final) rfl hnew.permutations
    (ne_of_lt h.order)
  have hmask : final.getPermutationUnencryptedMask projectId runId = .ok mask :=
    getPermutationUnencryptedMask_of_append rfl hnew.permutationMasks
  refine ⟨final, groups, a, b, mask, ?_,
    hfinal.runResultGet_mask hfinalRow hrowProject rfl hmask address,
    hfinal.runResultGet_permutation hfinalRow hrowProject rfl h.receipts.1 hdpA ha address,
    hfinal.runResultGet_permutation hfinalRow hrowProject rfl h.receipts.2 hdpB hb address,
    hsolution, hpermuted⟩
  unfold finishRun
  rw [Action.bind_of_ok hrecorded]
  dsimp only
  rw [if_neg hne, Action.bind_of_ok hsolved]
  dsimp only
  rw [Action.bind_of_ok hsaved, if_pos rfl]
  exact Action.bind_of_ok hpermute

/-- The records of candidate pairs are grouped as long as neither is in a group. -/
def groupPairs (groups : List Group) : List (CandidatePair σ) → List Group
  | [] => groups
  | c :: cs =>
    if (recordsOf c).1.1 ≠ (recordsOf c).2.1 ∧
        ∀ g ∈ groups, (recordsOf c).1 ∉ g ∧ (recordsOf c).2 ∉ g then
      groupPairs (groups ++ [[(recordsOf c).1, (recordsOf c).2]]) cs
    else groupPairs groups cs

omit [LinearOrder σ] in
theorem solution_groupPairs {all : List (CandidatePair σ)} {groups : List Group}
    (h : Solution all groups) {cs : List (CandidatePair σ)} (hcs : ∀ c ∈ cs, c ∈ all) :
    Solution all (groupPairs groups cs) := by
  induction cs generalizing groups with
  | nil => exact h
  | cons c cs ih =>
    obtain ⟨hc, hcs⟩ := List.forall_mem_cons.mp hcs
    unfold groupPairs
    split_ifs with hfree
    · obtain ⟨hdatasets, hfree⟩ := hfree
      apply ih ?_ hcs
      refine ⟨?_, fun g hg => ?_, fun g hg => ?_, fun g hg r hr => ?_⟩
      · refine List.pairwise_append.mpr ⟨h.disjoint, List.pairwise_singleton _ _, ?_⟩
        intro g hg pair hpair r hr hmem
        obtain rfl := List.mem_singleton.mp hpair
        rcases List.mem_pair.mp hmem with rfl | rfl
        · exact (hfree g hg).1 hr
        · exact (hfree g hg).2 hr
      · rcases List.mem_append.mp hg with hg | hg
        · exact h.oneOfEach g hg
        · obtain rfl := List.mem_singleton.mp hg
          simpa using hdatasets
      · rcases List.mem_append.mp hg with hg | hg
        · exact h.nonempty g hg
        · obtain rfl := List.mem_singleton.mp hg
          simp
      · rcases List.mem_append.mp hg with hg | hg
        · exact h.linked g hg r hr
        · obtain rfl := List.mem_singleton.mp hg
          exact ⟨c, hc, List.mem_pair.mp hr, by simp, by simp⟩
    · exact ih h hcs

/-- The candidate pairs one after the other. -/
def solverOfPairs [DecidableEq σ] : AnonlinkSolver σ where
  mergeSimilarities := List.dedup
  greedySolve := groupPairs []
  mem_mergeSimilarities _ _ := List.mem_dedup
  solution cs := solution_groupPairs (solution_nil cs) fun _ hc => hc

end Finished

open Aggregation PackageResults in
/-- A run of two providers with two and three records, of which a pair was found similar. -/
def scoredProject : Storage :=
  { matchedProject with
    runResults := []
    objects := Dict.empty.set "f" ⟨"p", doubleFormat.dump [⟨oneBits, 0, 1, 0, 2⟩]⟩ }

open Aggregation PackageResults in
theorem finishRun_permutations_scoredProject : ∃ s' groups a b mask,
    finishRun doubleFormat solverOfPairs 10 ⟨reversal, reversal, reversal⟩ "p" "r" "f"
        scoredProject = (s', .ok ()) ∧
      runResultGet s' "p" "r" (some "t") false = .ok { noResult with mask := some mask } ∧
      runResultGet s' "p" "r" (some "x") false =
        .ok { noResult with permutation := some a, rows := some (min 2 3) } ∧
      runResultGet s' "p" "r" (some "y") false =
        .ok { noResult with permutation := some b, rows := some (min 2 3) } ∧
      Solution [⟨oneBits, 0, 1, 0, 2⟩] groups ∧
      Permuted (Int.toNat 2) (Int.toNat 3) groups a b mask := by
  have h : TwoParties scoredProject.db scoredProject.accessTokens "p" "t" ⟨1, "a", .done, "p"⟩
      ⟨2, "b", .done, "p"⟩ ⟨1, "x", none, .ready, some 8, 2, 1⟩
      ⟨2, "y", none, .ready, some 8, 3, 1⟩ :=
    ⟨⟨by decide, by decide, by decide⟩, .refl _, by decide, by decide, by decide, by decide,
      by decide, by decide⟩
  have hnew : WithoutResults scoredProject "p" "r" :=
    ⟨⟨_, rfl, rfl⟩, by decide, by decide, by decide⟩
  have hscores : HasScores doubleFormat scoredProject "f" [⟨oneBits, 0, 1, 0, 2⟩] := ⟨_, rfl, rfl⟩
  have htwo : OfTwo 2 3 [(⟨oneBits, 0, 1, 0, 2⟩ : CandidatePair DoubleBits)] := by
    intro c hc
    obtain rfl := List.mem_singleton.mp hc
    decide
  exact finishRun_permutations solverOfPairs 10 ⟨reversal, reversal, reversal⟩ h hnew hscores
    htwo (by decide) false

section Finished
variable {σ : Type} [LinearOrder σ] {fmt : CandidateFormat σ} {s : Storage}
  {projectId : ProjectId} {runId : RunId} {mergedFilename : FileName}

/-- The tasks after a score file of a project for groups. The groups are for the access token only:
no two of them have a record in common, none has two records of one data provider, and each record
qualifies with another one of its group. A run with more candidate pairs than the solver takes
ends in an error that every token is told. -/
theorem finishRun_groups (anonlink : AnonlinkSolver σ) (solverMaxCandidatePairs : ℕ)
    (shuffles : Shuffles) {accessToken : Token}
    (h : ProjectOfType s.db s.accessTokens projectId accessToken .groups)
    (hnew : WithoutResults s projectId runId) {cs : List (CandidatePair σ)}
    (hscores : HasScores fmt s mergedFilename cs) {value : σ ↪o ℚ} {dice : Bytes → Bytes → ℚ}
    {dpIds : List DpId} {encodings : DpId → List Bytes} {threshold : σ}
    (hcorrect : ∀ c ∈ cs, Correct value dice s.db dpIds encodings threshold c) (address : Bool) :
    ∃ s', finishRun fmt anonlink solverMaxCandidatePairs shuffles projectId runId mergedFilename s =
        (s', .ok ()) ∧
      ((anonlink.mergeSimilarities cs).length ≤ solverMaxCandidatePairs → ∃ groups,
        (∀ token, runResultGet s' projectId runId token address =
          if token = some accessToken then .ok { noResult with groups := some groups }
          else .error (.problem 403 INVALID_ACCESS_MSG)) ∧
        (groups.Pairwise fun g h => ∀ r ∈ g, r ∉ h) ∧ ∀ g ∈ groups, g ≠ [] ∧
          (g.map Prod.fst).Nodup ∧ ∀ r ∈ g, ∃ pair, pair.1 ∈ g ∧ pair.2 ∈ g ∧
            (r = pair.1 ∨ r = pair.2) ∧
            Similarity.Qualifies dice s.db dpIds encodings (value threshold) pair) ∧
      (solverMaxCandidatePairs < (anonlink.mergeSimilarities cs).length → ∀ token,
        runResultGet s' projectId runId token address =
          .error (.problem 500 "Error during computation of run")) := by
  have htype := h.getResultType_eq
  have hne : ResultType.groups ≠ .similarityScores := by decide
  have hexists := runExists_recorded hnew.runExists mergedFilename
  have hrecorded := recordScores_ok htype hne hnew.runExists mergedFilename
  obtain ⟨row, hrow, hrowProject⟩ := hnew.run
  have hrecordedRow := get?_recorded hrow mergedFilename
  rcases le_or_gt (anonlink.mergeSimilarities cs).length solverMaxCandidatePairs with hfew | hmany
  · obtain ⟨groups, hsolved, hsolution⟩ := solverTask_ok (s := recorded s runId mergedFilename)
      hscores hfew runId
    have hsaved := saveAndPermute_ok (s := recorded s runId mergedFilename) htype
      hexists groups
    let saved : Storage := { recorded s runId mergedFilename with
      runResults := s.runResults ++ [⟨runId, groups⟩] }
    let final := (markRunComplete runId saved).1
    have hfinalRow : final.runs.get? runId = some (markComplete (progressStage row)) := by
      change (saved.toServer.modifyRun runId markComplete).runs.get? runId = _
      rw [get?_modifyRun, if_pos rfl]
      exact congrArg (Option.map markComplete) hrecordedRow
    have hfinal : ProjectOfType final.db final.accessTokens projectId accessToken .groups := h
    have hresult : final.getRunResult runId = .ok groups :=
      getRunResult_of_append rfl hnew.runResults
    refine ⟨final, ?_, fun _ => ⟨groups, fun token => ?_, hsolution.disjoint, fun g hg => ?_⟩,
      fun hmany => absurd hfew (not_le.mpr hmany)⟩
    · unfold finishRun
      rw [Action.bind_of_ok hrecorded]
      dsimp only
      rw [if_neg hne, Action.bind_of_ok hsolved]
      dsimp only
      rw [Action.bind_of_ok hsaved, if_neg (by decide)]
      rfl
    · rw [runResultGet_of_completed hfinalRow hrowProject rfl]
      exact hfinal.getResult_groups rfl hresult token address
    · refine ⟨hsolution.nonempty g hg, hsolution.oneOfEach g hg, fun r hr => ?_⟩
      obtain ⟨c, hc, hrecord, hleft, hright⟩ := hsolution.linked g hg r hr
      exact ⟨recordsOf c, hleft, hright, hrecord, (hcorrect c hc).qualifies⟩
  · have hfailed := solverTask_tooMany (s := recorded s runId mergedFilename) hscores
      hmany runId
    let failed : Storage := { recorded s runId mergedFilename with
      toServer := (recorded s runId mergedFilename).toServer.modifyRun runId markFailure }
    have hfailedRow : failed.runs.get? runId = some (markFailure (progressStage row)) := by
      change ((recorded s runId mergedFilename).toServer.modifyRun runId markFailure).runs.get?
        runId = _
      rw [get?_modifyRun, if_pos rfl]
      exact congrArg (Option.map markFailure) hrecordedRow
    refine ⟨failed, ?_, fun hfew => absurd hfew (not_le.mpr hmany), fun _ token => ?_⟩
    · unfold finishRun
      rw [Action.bind_of_ok hrecorded]
      dsimp only
      rw [if_neg hne, Action.bind_of_ok hfailed]
      rfl
    · exact runResultGet_of_error hfailedRow hrowProject rfl token address

end Finished
open Aggregation PackageResults Similarity in
/-- A run for groups of the two data providers whose records have one encoding. -/
def groupsProject : Storage where
  db := { oneToTwo with
    projects := [⟨"p", none, none, 2, .groups, false, false⟩]
    dataproviders := [⟨1, "a", .done, "p"⟩, ⟨2, "b", .done, "p"⟩]
    uploads := [⟨1, "x", none, .ready, some 1, 1, 1⟩, ⟨2, "y", none, .ready, some 1, 2, 1⟩] }
  runs := Dict.empty.set "r" ⟨"p", .running, 2, .default, false⟩
  cache := Dict.empty
  accessTokens := Dict.empty.set "p" "t"
  runResults := []
  similarityScores := []
  permutations := []
  permutationMasks := []
  objects := Dict.empty.set "f" ⟨"p", doubleFormat.dump [⟨oneBits, 0, 1, 0, 1⟩]⟩

open Aggregation PackageResults Similarity in
theorem correct_groupsProject : ∀ c ∈ [(⟨oneBits, 0, 1, 0, 1⟩ : CandidatePair DoubleBits)],
    Correct doubleValue equalDice groupsProject.db [1, 2] equalEncodings oneBits c := by
  intro c hc
  obtain rfl := List.mem_singleton.mp hc
  have hleft : InBlock groupsProject.db 1 ['1'] 0 := ⟨1, 1, by decide, by decide⟩
  have hright : InBlock groupsProject.db 2 ['1'] 1 := ⟨2, 2, by decide, by decide⟩
  have hsimilar : doubleValue oneBits =
      equalDice (encodingOf equalEncodings 1 0) (encodingOf equalEncodings 2 1) := by
    rw [doubleValue_oneBits]
    exact (if_pos (by decide)).symm
  refine ⟨⟨Nat.zero_lt_one, 1, 2, rfl, rfl, ⟨['1'], hleft, hright⟩, hsimilar.le⟩, ?_⟩
  intro dp1 dp2 hdp1 hdp2
  obtain rfl : 1 = dp1 := Option.some.inj hdp1
  obtain rfl : 2 = dp2 := Option.some.inj hdp2
  exact hsimilar

open Aggregation PackageResults Similarity in
theorem finishRun_groups_groupsProject : ∃ s', finishRun doubleFormat solverOfPairs 10
      ⟨reversal, reversal, reversal⟩ "p" "r" "f" groupsProject = (s', .ok ()) ∧
    ((solverOfPairs.mergeSimilarities
        [(⟨oneBits, 0, 1, 0, 1⟩ : CandidatePair DoubleBits)]).length ≤ 10 → ∃ groups,
      (∀ token, runResultGet s' "p" "r" token false =
        if token = some "t" then .ok { noResult with groups := some groups }
        else .error (.problem 403 INVALID_ACCESS_MSG)) ∧
      (groups.Pairwise fun g h => ∀ r ∈ g, r ∉ h) ∧ ∀ g ∈ groups, g ≠ [] ∧
        (g.map Prod.fst).Nodup ∧ ∀ r ∈ g, ∃ pair, pair.1 ∈ g ∧ pair.2 ∈ g ∧
          (r = pair.1 ∨ r = pair.2) ∧
          Qualifies equalDice groupsProject.db [1, 2] equalEncodings (doubleValue oneBits) pair) ∧
    (10 < (solverOfPairs.mergeSimilarities
        [(⟨oneBits, 0, 1, 0, 1⟩ : CandidatePair DoubleBits)]).length → ∀ token,
      runResultGet s' "p" "r" token false =
        .error (.problem 500 "Error during computation of run")) := by
  have h : ProjectOfType groupsProject.db groupsProject.accessTokens "p" "t" .groups :=
    ⟨by decide, by decide, by decide⟩
  have hnew : WithoutResults groupsProject "p" "r" :=
    ⟨⟨_, rfl, rfl⟩, by decide, by decide, by decide⟩
  exact finishRun_groups solverOfPairs 10 ⟨reversal, reversal, reversal⟩ h hnew ⟨_, rfl, rfl⟩
    correct_groupsProject false

end EntityService.Tasks.Solver
