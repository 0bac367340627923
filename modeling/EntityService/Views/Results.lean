import EntityService.Service.Storage
import EntityService.Views.AuthChecks

/-! The result of a run, and who it is disclosed to. -/
namespace EntityService.Views
open Lib Service

inductive TokenType
  | resultToken | receiptToken
deriving DecidableEq, Repr

/-- The elements of a result. The credentials are for the score file with the given name. -/
structure RunResult where
  groups : Option (List Group)
  similarityScores : Option Bytes
  credentials : Option FileName
  permutation : Option (List ℕ)
  rows : Option ℤ
  mask : Option (List ℕ)
deriving DecidableEq, Repr

def noResult : RunResult := ⟨none, none, none, none, none, none⟩

section Views
variable (s : Storage) (projectId : ProjectId) (runId : RunId) (token : Option Token)

def abortIfRunDoesntExist : Except Error Unit :=
  ensure (s.checkRunExists projectId runId) (.problem 403 INVALID_ACCESS_MSG)

def abortIfInvalidResultsToken : Except Error Unit :=
  ensure (s.checkProjectAuth projectId token) (.problem 403 INVALID_ACCESS_MSG)

/-- If the token is not a valid result token, it should be a receipt token. -/
def authorizationTokenType : Except Error TokenType :=
  if s.checkProjectAuth projectId token then .ok .resultToken
  else if (s.selectDataproviderId projectId token).isSome then .ok .receiptToken
  else .error (.problem 403 INVALID_ACCESS_MSG)

/-- Only a result token is good for every type of result. -/
def getAuthorizationTokenTypeOrAbort : Except Error TokenType := do
  let tokenType ← authorizationTokenType s projectId token
  let resultType ← s.getResultType projectId
  ensure (resultType = .permutations ∨ tokenType = .resultToken) (.problem 403 INVALID_ACCESS_MSG)
  return tokenType

def getSimilarityScoreResultFilename : Except Error FileName :=
  match s.getSimilarityScoresFilename runId with
  | .error .typeError => .error (.problem 500 "Failed to retrieve similarity scores")
  | filename => filename

/-- The object is looked for before its data is streamed. -/
def getSimilarityScores (filename : FileName) : Except Error Bytes := do
  let object ← orRaise (s.objects.get? filename) .s3Error
  return object.data

def getPermutationsResult (authTokenType : TokenType) : Except Error RunResult :=
  match authTokenType with
  | .receiptToken => do
    -- without a provider the id is `NULL`, and there is no permutation for it
    let dpId ← orRaise (s.selectDataproviderId projectId token) .typeError
    let perm ← s.getPermutationResult runId dpId
    let rows := s.getSmallerDatasetSizeForProject projectId
    return { noResult with permutation := perm, rows := rows }
  | .resultToken => do
    let mask ← s.getPermutationUnencryptedMask projectId runId
    return { noResult with mask := mask }

def getResult (returnObjectStoreAddress : Bool) : Except Error RunResult := do
  let resultType ← s.getResultType projectId
  let authTokenType ← getAuthorizationTokenTypeOrAbort s projectId token
  match resultType with
  | .groups => do
    let result ← s.getRunResult runId
    return { noResult with groups := result }
  | .similarityScores => do
    let filename ← getSimilarityScoreResultFilename s runId
    if returnObjectStoreAddress then return { noResult with credentials := filename }
    else
      let scores ← getSimilarityScores s filename
      return { noResult with similarityScores := scores }
  | .permutations => getPermutationsResult s projectId runId token authTokenType

/-- The view of the result of a run. The token is only looked at once the run is completed. -/
def runResultGet (returnObjectStoreAddress : Bool) : Except Error RunResult := do
  abortIfRunDoesntExist s projectId runId
  let state ← s.getRunState runId
  match state with
  | .completed => getResult s projectId runId token returnObjectStoreAddress
  | .error => .error (.problem 500 "Error during computation of run")
  | _ => .error (.problem 404 "run is not complete")

end Views

def RunResult.OfProject (r : RunResult) : Prop :=
  r.groups ≠ none ∨ r.similarityScores ≠ none ∨ r.credentials ≠ none ∨ r.mask ≠ none

/-- Nothing is disclosed to anyone else. -/
structure DisclosedToOwner (s : Storage) (projectId : ProjectId) (runId : RunId)
    (token : Option Token) (r : RunResult) : Prop where
  completed : ∃ row, s.runs.get? runId = some row ∧ row.project = projectId ∧
    row.state = .completed
  ofProject : r.OfProject → ∃ t, token = some t ∧ s.accessTokens.get? projectId = some t
  permutation : ∀ perm, r.permutation = some perm → ∃ d ∈ s.db.dataproviders,
    d.project = projectId ∧ (∃ u ∈ s.db.uploads, u.dp = d.id ∧ token = some u.token) ∧
      ⟨d.id, runId, perm⟩ ∈ s.permutations
  exclusive : r.permutation = none ∨ r.mask = none

section Queries
variable {s : Storage} {projectId : ProjectId} {runId : RunId} {token : Option Token}

theorem checkRunExists_iff : s.checkRunExists projectId runId ↔
    ∃ row, s.runs.get? runId = some row ∧ row.project = projectId := by
  unfold Storage.checkRunExists
  rw [decide_eq_true_eq]
  exact s.runs.countP_key runId fun row => row.project = projectId

theorem accessToken_of_checkProjectAuth (h : s.checkProjectAuth projectId token) :
    ∃ t, token = some t ∧ s.accessTokens.get? projectId = some t := by
  unfold Storage.checkProjectAuth at h
  have hpos : 0 < s.db.projects.countP (fun r => r.projectId = projectId ∧ token ≠ none ∧
      s.accessTokens.get? r.projectId = token) := by
    have hone := of_decide_eq_true h
    omega
  obtain ⟨r, -, hr⟩ := List.countP_pos_iff.mp hpos
  obtain ⟨rfl, hne, htoken⟩ := of_decide_eq_true hr
  obtain ⟨t, rfl⟩ := Option.ne_none_iff_exists'.mp hne
  exact ⟨t, rfl, htoken⟩

/-- Only the access token of the project is a result token. -/
theorem checkProjectAuth_iff (h : (s.db.projects.map ProjectRow.projectId).Nodup) {row : ProjectRow}
    (hrow : row ∈ s.db.projects) {resultToken : Token}
    (haccess : s.accessTokens.get? row.projectId = some resultToken) (token : Option Token) :
    s.checkProjectAuth row.projectId token ↔ token = some resultToken := by
  constructor
  · intro hauth
    obtain ⟨t, rfl, ht⟩ := accessToken_of_checkProjectAuth hauth
    rw [← ht, haccess]
  · rintro rfl
    have hle : s.db.projects.countP (fun r => r.projectId = row.projectId ∧
        some resultToken ≠ none ∧ s.accessTokens.get? r.projectId = some resultToken) ≤ 1 :=
      countP_le_one_of_nodup_map h fun r hr => (of_decide_eq_true hr).1
    have hpos : 0 < s.db.projects.countP (fun r => r.projectId = row.projectId ∧
        some resultToken ≠ none ∧ s.accessTokens.get? r.projectId = some resultToken) :=
      List.countP_pos_iff.mpr ⟨row, hrow, by simp [haccess]⟩
    unfold Storage.checkProjectAuth
    rw [decide_eq_true_eq]
    omega

/-- The data provider that a receipt token is found for has an upload with it. -/
theorem selectDataproviderId_eq_some {dpId : DpId}
    (h : s.selectDataproviderId projectId token = some dpId) :
    ∃ d ∈ s.db.dataproviders, d.id = dpId ∧ d.project = projectId ∧
      ∃ u ∈ s.db.uploads, u.dp = dpId ∧ token = some u.token := by
  unfold Storage.selectDataproviderId at h
  obtain ⟨⟨d, u⟩, hfind, rfl⟩ := Option.map_eq_some_iff.mp h
  have htoken : some u.token = token := by simpa using List.find?_some hfind
  obtain ⟨d', hd', hu⟩ := List.mem_flatMap.mp (List.mem_of_find?_eq_some hfind)
  obtain ⟨u', hu', he⟩ := List.mem_map.mp hu
  obtain ⟨rfl, rfl⟩ := Prod.mk.inj he
  obtain ⟨hmem, hproject⟩ := List.mem_filter.mp hd'
  obtain ⟨humem, hdp⟩ := List.mem_filter.mp hu'
  have hdp : u'.dp = d'.id := of_decide_eq_true hdp
  exact ⟨d', hmem, hdp.symm, of_decide_eq_true hproject, u', humem, rfl, htoken.symm⟩

theorem getPermutationResult_eq_ok {dpId : DpId} {perm : List ℕ}
    (h : s.getPermutationResult runId dpId = .ok perm) : ⟨dpId, runId, perm⟩ ∈ s.permutations := by
  obtain ⟨row, hrow, hperm⟩ := bind_eq_ok.mp h
  have hfind := orRaise_eq_ok.mp hrow
  have hkeys : row.dp = dpId ∧ row.run = runId := by simpa using List.find?_some hfind
  obtain ⟨rfl, rfl⟩ := hkeys
  cases hperm
  exact List.mem_of_find?_eq_some hfind

theorem getAuthorizationTokenTypeOrAbort_eq_ok {tokenType : TokenType}
    (h : getAuthorizationTokenTypeOrAbort s projectId token = .ok tokenType) :
    (tokenType = .resultToken ∧ ∃ t, token = some t ∧ s.accessTokens.get? projectId = some t) ∨
      tokenType = .receiptToken ∧ s.getResultType projectId = .ok .permutations := by
  obtain ⟨found, hfound, h⟩ := bind_eq_ok.mp h
  obtain ⟨resultType, htype, h⟩ := bind_eq_ok.mp h
  obtain ⟨u, hensure, h⟩ := bind_eq_ok.mp h
  cases h
  unfold authorizationTokenType at hfound
  split_ifs at hfound with hauth hreceipt
  · cases hfound
    exact .inl ⟨rfl, accessToken_of_checkProjectAuth hauth⟩
  · cases hfound
    rcases ensure_eq_ok.mp hensure with rfl | h
    · exact .inr ⟨rfl, htype⟩
    · cases h

/-- A result for a receipt token is the permutation of its data provider, a result for the access
token is anything but a permutation. -/
theorem getResult_cases {returnObjectStoreAddress : Bool} {r : RunResult}
    (h : getResult s projectId runId token returnObjectStoreAddress = .ok r) :
    ((∃ t, token = some t ∧ s.accessTokens.get? projectId = some t) ∧ r.permutation = none) ∨
      ∃ dpId perm rows, s.selectDataproviderId projectId token = some dpId ∧
        s.getPermutationResult runId dpId = .ok perm ∧
        r = { noResult with permutation := some perm, rows := rows } := by
  obtain ⟨resultType, htype, h⟩ := bind_eq_ok.mp h
  obtain ⟨tokenType, htoken, h⟩ := bind_eq_ok.mp h
  rcases getAuthorizationTokenTypeOrAbort_eq_ok htoken with ⟨rfl, hauth⟩ | ⟨rfl, hperm⟩
  · refine .inl ⟨hauth, ?_⟩
    cases resultType with
    | groups =>
      obtain ⟨result, -, h⟩ := bind_eq_ok.mp h
      cases h
      rfl
    | similarityScores =>
      obtain ⟨filename, -, h⟩ := bind_eq_ok.mp h
      split_ifs at h
      · cases h
        rfl
      · obtain ⟨scores, -, h⟩ := bind_eq_ok.mp h
        cases h
        rfl
    | permutations =>
      obtain ⟨mask, -, h⟩ := bind_eq_ok.mp h
      cases h
      rfl
  · obtain rfl := Except.ok.inj (htype.symm.trans hperm)
    obtain ⟨dpId, hdp, h⟩ := bind_eq_ok.mp h
    obtain ⟨perm, hperm, h⟩ := bind_eq_ok.mp h
    cases h
    exact .inr ⟨dpId, perm, _, orRaise_eq_ok.mp hdp, hperm, rfl⟩

theorem runResultGet_eq_ok {returnObjectStoreAddress : Bool} {r : RunResult} :
    runResultGet s projectId runId token returnObjectStoreAddress = .ok r ↔
      (∃ row, s.runs.get? runId = some row ∧ row.project = projectId ∧ row.state = .completed) ∧
        getResult s projectId runId token returnObjectStoreAddress = .ok r := by
  constructor
  · intro h
    obtain ⟨u, hexists, h⟩ := bind_eq_ok.mp h
    obtain ⟨state, hstate, h⟩ := bind_eq_ok.mp h
    obtain ⟨row, hrow, hproject⟩ := checkRunExists_iff.mp (ensure_eq_ok.mp hexists)
    obtain ⟨row', hrow', he⟩ := bind_eq_ok.mp hstate
    obtain rfl := Option.some.inj (hrow.symm.trans (orRaise_eq_ok.mp hrow'))
    cases he
    cases hcompleted : row.state with
    | completed =>
      rw [hcompleted] at h
      exact ⟨⟨row, hrow, hproject, hcompleted⟩, h⟩
    | _ =>
      rw [hcompleted] at h
      cases h
  · rintro ⟨⟨row, hrow, hproject, hcompleted⟩, h⟩
    have hexists : abortIfRunDoesntExist s projectId runId = .ok () :=
      ensure_eq_ok.mpr (checkRunExists_iff.mpr ⟨row, hrow, hproject⟩)
    have hstate : s.getRunState runId = .ok row.state := by
      unfold Storage.getRunState
      rw [hrow]
      rfl
    unfold runResultGet
    rw [hexists, ok_bind, hstate, ok_bind, hcompleted]
    exact h

end Queries

/-- A request for a result discloses what it asks for to the holder of the right token only. -/
theorem disclosedToOwner_of_runResultGet {s : Storage} {projectId : ProjectId} {runId : RunId}
    {token : Option Token} {returnObjectStoreAddress : Bool} {r : RunResult}
    (h : runResultGet s projectId runId token returnObjectStoreAddress = .ok r) :
    DisclosedToOwner s projectId runId token r := by
  obtain ⟨hcompleted, hresult⟩ := runResultGet_eq_ok.mp h
  rcases getResult_cases hresult with ⟨hauth, hnone⟩ | ⟨dpId, perm, rows, hdp, hperm, rfl⟩
  · refine ⟨hcompleted, fun _ => hauth, fun perm hperm => ?_, .inl hnone⟩
    rw [hnone] at hperm
    cases hperm
  · refine ⟨hcompleted, fun h => ?_, fun perm' he => ?_, .inr rfl⟩
    · simp [RunResult.OfProject, noResult] at h
    · obtain rfl := Option.some.inj he
      obtain ⟨d, hd, rfl, hproject, hupload⟩ := selectDataproviderId_eq_some hdp
      exact ⟨d, hd, hproject, hupload, getPermutationResult_eq_ok hperm⟩

/-- A project with the permutations of a completed run. -/
def permutedProject : Storage where
  db := { twoProjects with
    projects := [⟨"p", none, none, 2, .permutations, false, false⟩]
    dataproviders := [⟨1, "a", .done, "p"⟩, ⟨2, "b", .done, "p"⟩]
    uploads := [⟨1, "x", none, .ready, some 8, 1, 1⟩, ⟨2, "y", none, .ready, some 8, 2, 1⟩] }
  runs := Dict.empty.set "r" ⟨"p", .completed, 3, .default, false⟩
  cache := Dict.empty
  accessTokens := Dict.empty.set "p" "t"
  runResults := [⟨"r", [[(0, 0), (1, 1)]]⟩]
  similarityScores := []
  permutations := [⟨1, "r", [0]⟩, ⟨2, "r", [1, 0]⟩]
  permutationMasks := [⟨"p", "r", [1]⟩]
  objects := Dict.empty

theorem disclosedToOwner_permutedProject :
    runResultGet permutedProject "p" "r" (some "y") false =
        .ok { noResult with permutation := some [1, 0], rows := some 1 } ∧
      DisclosedToOwner permutedProject "p" "r" (some "y")
        { noResult with permutation := some [1, 0], rows := some 1 } := by
  have h : runResultGet permutedProject "p" "r" (some "y") false =
      .ok { noResult with permutation := some [1, 0], rows := some 1 } := by decide
  exact ⟨h, disclosedToOwner_of_runResultGet h⟩

end EntityService.Views
