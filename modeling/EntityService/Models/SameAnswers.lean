import EntityService.Models.Unaffected

/-! What the views of a project answer, which is read from its own rows. -/
namespace EntityService.Models
open Lib Service Views Database

/-- The project is described to its clients as before, and its runs and their results are. Only
the data of a file of scores is read from the bucket. -/
structure SameAnswers (projectId : ProjectId) (s s' : Storage) : Prop where
  project : ∀ token, projectGet s' projectId token = projectGet s projectId token
  runs : ∀ token, runsGet s' projectId token = runsGet s projectId token
  run : ∀ runId token, runGet s' projectId runId token = runGet s projectId runId token
  status : ∀ runId token,
    runStatusGet s' projectId runId token = runStatusGet s projectId runId token
  result : ∀ runId token returnObjectStoreAddress,
    returnObjectStoreAddress = true ∨ s.getResultType projectId ≠ .ok .similarityScores →
      runResultGet s' projectId runId token returnObjectStoreAddress =
        runResultGet s projectId runId token returnObjectStoreAddress

section Answers
variable {projectId : ProjectId} {s s' : Storage} (h : s.Unaffected projectId s')
include h

theorem findProject_unaffected : s'.db.findProject projectId = s.db.findProject projectId :=
  find?_eq_of_filter_eq h.server.db.projects fun _ hr => hr

theorem getProject_unaffected :
    s'.db.getProject projectId = s.db.getProject projectId := by
  apply find?_eq_of_filter_eq h.server.db.projects
  intro r hr
  exact decide_eq_true (of_decide_eq_true hr).1

theorem abortIfProjectDoesntExist_unaffected :
    abortIfProjectDoesntExist s'.db projectId = abortIfProjectDoesntExist s.db projectId := by
  have hcount : s'.db.checkProjectExists projectId = s.db.checkProjectExists projectId := by
    unfold Database.checkProjectExists
    rw [countP_eq_of_filter_eq h.server.db.projects]
    intro r hr
    exact decide_eq_true (of_decide_eq_true hr).1
  unfold abortIfProjectDoesntExist
  rw [hcount]

theorem checkProjectAuth_unaffected (token : Option Token) :
    s'.checkProjectAuth projectId token = s.checkProjectAuth projectId token := by
  have htoken : ∀ r ∈ s'.db.projects, (decide (r.projectId = projectId ∧ token ≠ none ∧
      s'.accessTokens.get? r.projectId = token) = true ↔ decide (r.projectId = projectId ∧
        token ≠ none ∧ s.accessTokens.get? r.projectId = token) = true) := by
    intro r _
    rw [decide_eq_true_iff, decide_eq_true_iff]
    apply and_congr_right
    rintro rfl
    rw [h.accessToken]
  unfold Storage.checkProjectAuth
  rw [List.countP_congr htoken, countP_eq_of_filter_eq h.server.db.projects]
  intro r hr
  exact decide_eq_true (of_decide_eq_true hr).1

theorem providerUploads_unaffected :
    s'.db.providerUploads projectId = s.db.providerUploads projectId := by
  rw [providerUploads_eq, providerUploads_eq]
  show (s'.db.parties projectId).flatMap _ = (s.db.parties projectId).flatMap _
  rw [h.server.db.parties]
  apply List.flatMap_congr
  intro d hd
  rw [h.server.db.uploads ⟨d, hd, rfl⟩]

theorem getErroredUploadsCount_unaffected :
    s'.db.getErroredUploadsCount projectId = s.db.getErroredUploadsCount projectId := by
  unfold Database.getErroredUploadsCount
  show ((s'.db.parties projectId).map _).sum = ((s.db.parties projectId).map _).sum
  rw [h.server.db.parties]
  congr 1
  apply List.map_congr_left
  intro d hd
  have huploads := h.server.db.uploads ⟨d, hd, rfl⟩
  unfold Database.uploadsOf at huploads
  rw [huploads]

theorem authorizationTokenTypeOrAbort_unaffected (token : Option Token) :
    getAuthorizationTokenTypeOrAbort s' projectId token =
      getAuthorizationTokenTypeOrAbort s projectId token := by
  unfold getAuthorizationTokenTypeOrAbort authorizationTokenType Storage.selectDataproviderId
    Storage.getResultType
  rw [checkProjectAuth_unaffected h, providerUploads_unaffected h, findProject_unaffected h]

theorem abortIfInvalidResultsToken_unaffected (token : Option Token) :
    abortIfInvalidResultsToken s' projectId token =
      abortIfInvalidResultsToken s projectId token := by
  unfold abortIfInvalidResultsToken
  rw [checkProjectAuth_unaffected h]

theorem abortIfRunDoesntExist_unaffected (runId : RunId) :
    abortIfRunDoesntExist s' projectId runId = abortIfRunDoesntExist s projectId runId := by
  have hcount : s'.checkRunExists projectId runId = s.checkRunExists projectId runId := by
    unfold Storage.checkRunExists
    rw [countP_eq_of_filter_eq h.server.runs]
    intro r hr
    exact decide_eq_true (of_decide_eq_true hr).1
  unfold abortIfRunDoesntExist
  rw [hcount]

theorem get?_unaffected {runId : RunId} (hrun : s.RunOf projectId runId) :
    s'.runs.get? runId = s.runs.get? runId := by
  obtain ⟨row, hrow, hproject⟩ := hrun
  rw [hrow]
  exact (h.server.get?_iff hproject).mpr hrow

theorem bind_abortIfRunDoesntExist_unaffected {α : Type} {runId : RunId}
    {f f' : Unit → Except Error α} (hf : s.RunOf projectId runId → f' () = f ()) :
    (abortIfRunDoesntExist s' projectId runId >>= f') =
      (abortIfRunDoesntExist s projectId runId >>= f) := by
  rw [abortIfRunDoesntExist_unaffected h]
  cases hexists : abortIfRunDoesntExist s projectId runId with
  | error e => rfl
  | ok u => exact hf (runOf_of_isOk (by rw [hexists]; rfl))

theorem getPermutationsResult_unaffected {runId : RunId} (hrun : s.RunOf projectId runId)
    (token : Option Token) (authTokenType : TokenType) :
    getPermutationsResult s' projectId runId token authTokenType =
      getPermutationsResult s projectId runId token authTokenType := by
  cases authTokenType with
  | receiptToken =>
    have hselect : s'.selectDataproviderId projectId token =
        s.selectDataproviderId projectId token := by
      unfold Storage.selectDataproviderId
      rw [providerUploads_unaffected h]
    have hsizes : s'.getSmallerDatasetSizeForProject projectId =
        s.getSmallerDatasetSizeForProject projectId := by
      unfold Storage.getSmallerDatasetSizeForProject
      rw [providerUploads_unaffected h]
    simp only [getPermutationsResult, hselect, hsizes]
    cases hdp : s.selectDataproviderId projectId token with
    | none => rfl
    | some dpId =>
      obtain ⟨d, hd, hid, hproject, -⟩ := selectDataproviderId_eq_some hdp
      have howns : s.db.Owns projectId dpId :=
        ⟨d, List.mem_filter.mpr ⟨hd, decide_eq_true hproject⟩, hid⟩
      have hperm : s'.getPermutationResult runId dpId = s.getPermutationResult runId dpId := by
        unfold Storage.getPermutationResult
        rw [find?_eq_of_filter_eq (h.permutations hrun howns) fun _ hr => hr]
      simp only [orRaise, Option.elim_some, ok_bind, hperm]
  | resultToken =>
    have hmask : s'.getPermutationUnencryptedMask projectId runId =
        s.getPermutationUnencryptedMask projectId runId := by
      unfold Storage.getPermutationUnencryptedMask
      rw [find?_eq_of_filter_eq (h.permutationMasks hrun) fun _ hr => hr]
    simp only [getPermutationsResult, hmask]

theorem getResult_unaffected {runId : RunId} (hrun : s.RunOf projectId runId)
    (token : Option Token) {returnObjectStoreAddress : Bool}
    (haddress : returnObjectStoreAddress = true ∨
      s.getResultType projectId ≠ .ok .similarityScores) :
    getResult s' projectId runId token returnObjectStoreAddress =
      getResult s projectId runId token returnObjectStoreAddress := by
  have htype : s'.getResultType projectId = s.getResultType projectId := by
    unfold Storage.getResultType
    rw [findProject_unaffected h]
  have hresult : s'.getRunResult runId = s.getRunResult runId := by
    unfold Storage.getRunResult
    rw [find?_eq_of_filter_eq (h.runResults hrun) fun _ hr => hr]
  have hfile : getSimilarityScoreResultFilename s' runId =
      getSimilarityScoreResultFilename s runId := by
    unfold getSimilarityScoreResultFilename Storage.getSimilarityScoresFilename
      Storage.similarityFiles
    rw [h.similarityScores hrun]
  unfold getResult
  rw [htype, authorizationTokenTypeOrAbort_unaffected h]
  cases hresultType : s.getResultType projectId with
  | error e => rfl
  | ok resultType =>
    rw [ok_bind, ok_bind]
    cases getAuthorizationTokenTypeOrAbort s projectId token with
    | error e => rfl
    | ok authTokenType =>
      rw [ok_bind, ok_bind]
      cases resultType with
      | groups =>
        dsimp only
        rw [hresult]
      | similarityScores =>
        obtain rfl : returnObjectStoreAddress = true :=
          haddress.resolve_right fun hne => hne hresultType
        dsimp only
        rw [hfile]
        rfl
      | permutations => exact getPermutationsResult_unaffected h hrun token authTokenType

theorem sameAnswers_of_unaffected : SameAnswers projectId s s' where
  project token := by
    unfold projectGet authoriseGetRequest
    rw [abortIfProjectDoesntExist_unaffected h, getProject_unaffected h]
    simp only [abortIfInvalidResultsToken_unaffected h, authorizationTokenTypeOrAbort_unaffected h,
      Database.getNumberPartiesUploaded, providerUploads_unaffected h,
      getErroredUploadsCount_unaffected h]
  runs token := by
    unfold runsGet authorizeRunListing
    simp only [abortIfProjectDoesntExist_unaffected h, abortIfInvalidResultsToken_unaffected h]
    rw [h.server.runs]
  run runId token := by
    unfold runGet authorizeRunDetail
    rw [bind_assoc, bind_assoc]
    apply bind_abortIfRunDoesntExist_unaffected h
    intro hrun
    rw [abortIfInvalidResultsToken_unaffected h, get?_unaffected h hrun]
  status runId token := by
    unfold runStatusGet
    apply bind_abortIfRunDoesntExist_unaffected h
    intro hrun
    rw [authorizationTokenTypeOrAbort_unaffected h, get?_unaffected h hrun,
      getErroredUploadsCount_unaffected h]
  result runId token returnObjectStoreAddress haddress := by
    unfold runResultGet
    apply bind_abortIfRunDoesntExist_unaffected h
    intro hrun
    unfold Storage.getRunState
    rw [get?_unaffected h hrun, getResult_unaffected h hrun token haddress]

end Answers

end EntityService.Models
