import EntityService.Views.ObjectStore
import EntityService.Views.Results

/-! What the endpoints of projects and runs answer to a token that is not in the database. -/
namespace EntityService
open Lib Service

namespace Database

def getProject (db : Database) (projectId : ProjectId) : Option ProjectRow :=
  db.projects.find? fun r => r.projectId = projectId ∧ r.markedForDeletion = false

/-- The rows of the data providers of a project joined to their uploads, if they have any, of
which one or the other is in an error state. -/
def getErroredUploadsCount (db : Database) (projectId : ProjectId) : ℕ :=
  ((db.dataproviders.filter fun d => d.project = projectId).map fun d =>
    let uploads := db.uploads.filter fun u => u.dp = d.id
    if uploads = [] then (if d.uploaded = .error then 1 else 0)
    else uploads.countP fun u => d.uploaded = .error ∨ u.state = .error).sum

end Database

namespace Views

/-- The answer to a request for a project. The columns of the project that no other part of the
service reads are left out. -/
structure ProjectDescription where
  project : ProjectRow
  partiesContributed : ℕ
  error : Bool

structure RunStatus where
  state : Service.RunState
  stages : ℕ
  stage : ℕ

section Requests
variable (s : Storage) (projectId : ProjectId) (runId : RunId) (authorization : Option Token)

def authoriseGetRequest : Except Error Unit := do
  let token ← orRaise authorization (.problem 401 "Authentication token required")
  abortIfProjectDoesntExist s.db projectId
  let project ← orRaise (s.db.getProject projectId) .typeError
  match project.resultType with
  | .groups | .similarityScores => abortIfInvalidResultsToken s projectId token
  | .permutations => do
    let _ ← getAuthorizationTokenTypeOrAbort s projectId token

def projectGet : Except Error ProjectDescription := do
  abortIfProjectDoesntExist s.db projectId
  authoriseGetRequest s projectId authorization
  let project ← orRaise (s.db.getProject projectId) .typeError
  return ⟨project, s.db.getNumberPartiesUploaded projectId,
    0 < s.db.getErroredUploadsCount projectId⟩

def authorizeRunListing : Except Error Unit := do
  abortIfProjectDoesntExist s.db projectId
  let authHeader ← orRaise authorization (.problem 401 "Authentication token required")
  abortIfInvalidResultsToken s projectId authHeader

def runsGet : Except Error (List (RunId × Service.RunState)) := do
  authorizeRunListing s projectId authorization
  return (s.runs.entries.filter fun r => r.2.project = projectId).map fun r => (r.1, r.2.state)

def authorizeRunDetail : Except Error Unit := do
  abortIfRunDoesntExist s projectId runId
  abortIfInvalidResultsToken s projectId authorization

def runGet : Except Error RunRow := do
  authorizeRunDetail s projectId runId authorization
  orRaise (s.runs.get? runId) .typeError

def runStatusGet : Except Error RunStatus := do
  abortIfRunDoesntExist s projectId runId
  let _ ← getAuthorizationTokenTypeOrAbort s projectId authorization
  let row ← orRaise (s.runs.get? runId) .typeError
  let projectInError := 0 < s.db.getErroredUploadsCount projectId
  return ⟨if projectInError then .error else row.state, row.type.stages, row.stage⟩

end Requests

/-- The status of the answer to a request. Only a `ProblemException` has one of its own. -/
def responseStatus {α : Type} (success : ℕ) : Except Error α → ℕ
  | .ok _ => success
  | .error (.problem status _) => status
  | .error _ => 500

/-- The endpoints of projects and runs, with what else a request to them says. -/
inductive Endpoint
  | projectDescription
  | clks (settings : Settings) (clkJson : ClkJson) (receiptToken : Token)
  | binaryclks (settings : Settings) (headers : BinaryHeaders) (data : Bytes) (receiptToken : Token)
  | externalUpload (config : UploadObjectStore)
  | runListing
  | runDescription
  | runStatus
  | runResult (returnObjectStoreAddress : Bool)

/-- The status of the answer of an endpoint. The endpoints that take encodings read nothing but the
database. -/
def Endpoint.status (s : Storage) (projectId : ProjectId) (runId : RunId)
    (authorization : Option Token) : Endpoint → ℕ
  | .projectDescription => responseStatus 200 (projectGet s projectId authorization)
  | .clks settings clkJson receiptToken => responseStatus 201
    (projectClksRequest settings projectId authorization clkJson receiptToken
      ⟨s.db, Dict.empty, Dict.empty⟩).2
  | .binaryclks settings headers data receiptToken => responseStatus 201
    (projectBinaryclksRequest settings projectId authorization headers data receiptToken
      ⟨s.db, Dict.empty, Dict.empty⟩).2
  | .externalUpload config =>
    responseStatus 201 (authorizeExternalUpload config s.db projectId authorization)
  | .runListing => responseStatus 200 (runsGet s projectId authorization)
  | .runDescription => responseStatus 200 (runGet s projectId runId authorization)
  | .runStatus => responseStatus 200 (runStatusGet s projectId runId authorization)
  | .runResult returnObjectStoreAddress =>
    responseStatus 200 (runResultGet s projectId runId authorization returnObjectStoreAddress)

/-- The endpoint checks an update token. -/
def Endpoint.isUpload : Endpoint → Bool
  | .clks _ _ _ | .binaryclks _ _ _ _ => true
  | .externalUpload config => config.enabled
  | _ => false

/-- What the schema demands of the projects: their ids are unique, and runs refer to them. -/
structure ProjectKeys (s : Storage) : Prop where
  unique : s.db.UniqueColumns
  runs : ∀ runId row, s.runs.get? runId = some row → ∃ r ∈ s.db.projects, r.projectId = row.project

structure UnknownToken (s : Storage) (token : Token) : Prop where
  access : ∀ projectId, s.accessTokens.get? projectId ≠ some token
  update : ∀ r ∈ s.db.dataproviders, r.token ≠ token
  receipt : ∀ r ∈ s.db.uploads, r.token ≠ token

def stateOfRun (s : Storage) (projectId : ProjectId) (runId : RunId) : Option Service.RunState :=
  ((s.runs.get? runId).filter fun row => row.project = projectId).map RunRow.state

/-- The run is waited for. -/
def Unfinished (state : Option Service.RunState) : Prop :=
  state = some .created ∨ state = some .queued ∨ state = some .running

instance (state : Option Service.RunState) : Decidable (Unfinished state) :=
  inferInstanceAs (Decidable (_ ∨ _))

/-- The endpoint takes no upload, or the project exists in both states or in none. It does not ask
for a result, or the run has failed in both or in none, and is waited for in both or in none. -/
structure Endpoint.Indifferent (endpoint : Endpoint) (s s' : Storage) (projectId : ProjectId)
    (runId : RunId) : Prop where
  project : endpoint.isUpload = true →
    (s.db.ProjectExists projectId ↔ s'.db.ProjectExists projectId)
  run : ∀ b, endpoint = .runResult b →
    (stateOfRun s projectId runId = some .error ↔ stateOfRun s' projectId runId = some .error) ∧
      (Unfinished (stateOfRun s projectId runId) ↔ Unfinished (stateOfRun s' projectId runId))

section Unknown
variable {s : Storage} {projectId : ProjectId} {runId : RunId} {token : Token}

theorem UnknownToken.checkProjectAuth (h : UnknownToken s token) (projectId : ProjectId) :
    s.checkProjectAuth projectId (some token) = false := by
  by_contra hauth
  obtain ⟨t, he, ht⟩ := accessToken_of_checkProjectAuth (Bool.eq_true_of_not_eq_false hauth)
  obtain rfl := Option.some.inj he
  exact h.access projectId ht

theorem UnknownToken.selectDataproviderId (h : UnknownToken s token) (projectId : ProjectId) :
    s.selectDataproviderId projectId (some token) = none := by
  cases hdp : s.selectDataproviderId projectId (some token) with
  | none => rfl
  | some dpId =>
    obtain ⟨-, -, -, -, u, hu, -, he⟩ := selectDataproviderId_eq_some hdp
    exact absurd (Option.some.inj he).symm (h.receipt u hu)

theorem UnknownToken.invalidResultsToken (h : UnknownToken s token) (projectId : ProjectId) :
    abortIfInvalidResultsToken s projectId (some token) =
      .error (.problem 403 INVALID_ACCESS_MSG) := by
  rw [abortIfInvalidResultsToken, h.checkProjectAuth]
  rfl

theorem UnknownToken.tokenTypeOrAbort (h : UnknownToken s token) (projectId : ProjectId) :
    getAuthorizationTokenTypeOrAbort s projectId (some token) =
      .error (.problem 403 INVALID_ACCESS_MSG) := by
  rw [getAuthorizationTokenTypeOrAbort, authorizationTokenType, h.checkProjectAuth,
    h.selectDataproviderId]
  rfl

theorem abortIfProjectDoesntExist_eq (hkeys : ProjectKeys s) (projectId : ProjectId) :
    abortIfProjectDoesntExist s.db projectId =
      if s.db.ProjectExists projectId then .ok ()
      else .error (.problem 403 INVALID_ACCESS_MSG) := by
  have hcheck := Database.checkProjectExists_iff hkeys.unique projectId
  unfold abortIfProjectDoesntExist ensure
  by_cases hproject : s.db.ProjectExists projectId
  · rw [if_pos hproject, if_pos (hcheck.mpr hproject)]
  · rw [if_neg hproject, if_neg fun h => hproject (hcheck.mp h)]

theorem abortIfRunDoesntExist_eq (s : Storage) (projectId : ProjectId) (runId : RunId) :
    abortIfRunDoesntExist s projectId runId =
      if (stateOfRun s projectId runId).isSome then .ok ()
      else .error (.problem 403 INVALID_ACCESS_MSG) := by
  have hcheck : s.checkRunExists projectId runId ↔
      (stateOfRun s projectId runId).isSome = true := by
    rw [checkRunExists_iff]
    unfold stateOfRun
    rw [Option.isSome_map, Option.isSome_iff_exists]
    simp only [Option.filter_eq_some_iff, decide_eq_true_eq]
  unfold abortIfRunDoesntExist ensure
  by_cases hrun : s.checkRunExists projectId runId = true
  · rw [if_pos hrun, if_pos (hcheck.mp hrun)]
  · rw [if_neg hrun, if_neg fun h => hrun (hcheck.mpr h)]

/-- Whatever a project is for, its description is refused. -/
theorem UnknownToken.authoriseGetRequest (h : UnknownToken s token) (hkeys : ProjectKeys s)
    (hproject : s.db.ProjectExists projectId) :
    authoriseGetRequest s projectId (some token) = .error (.problem 403 INVALID_ACCESS_MSG) := by
  have hfound : ∃ project, s.db.getProject projectId = some project := by
    obtain ⟨r, hr, hid, hmark⟩ := hproject
    exact Option.isSome_iff_exists.mp (List.find?_isSome.mpr ⟨r, hr, decide_eq_true ⟨hid, hmark⟩⟩)
  obtain ⟨project, hfound⟩ := hfound
  unfold Views.authoriseGetRequest
  rw [abortIfProjectDoesntExist_eq hkeys, if_pos hproject, hfound]
  simp only [orRaise, Option.elim_some, ok_bind]
  cases project.resultType with
  | groups | similarityScores => exact h.invalidResultsToken projectId
  | permutations =>
    dsimp only
    rw [h.tokenTypeOrAbort]
    rfl

/-- An endpoint that checks the token whatever it finds refuses it. -/
theorem UnknownToken.status_of_checked (h : UnknownToken s token) (hkeys : ProjectKeys s)
    (projectId : ProjectId) (runId : RunId) {endpoint : Endpoint}
    (hendpoint : endpoint ∈ [.projectDescription, .runListing, .runDescription, .runStatus]) :
    endpoint.status s projectId runId (some token) = 403 := by
  simp only [List.mem_cons, List.not_mem_nil, or_false] at hendpoint
  rcases hendpoint with rfl | rfl | rfl | rfl
  · simp only [Endpoint.status, projectGet, abortIfProjectDoesntExist_eq hkeys]
    split_ifs with hproject
    · rw [ok_bind, h.authoriseGetRequest hkeys hproject]
      rfl
    · rfl
  · simp only [Endpoint.status, runsGet, authorizeRunListing, abortIfProjectDoesntExist_eq hkeys]
    split_ifs with hproject
    · simp only [ok_bind, orRaise, Option.elim_some, h.invalidResultsToken]
      rfl
    · rfl
  · simp only [Endpoint.status, runGet, authorizeRunDetail, abortIfRunDoesntExist_eq]
    split_ifs with hrun
    · rw [ok_bind, h.invalidResultsToken]
      rfl
    · rfl
  · simp only [Endpoint.status, runStatusGet, abortIfRunDoesntExist_eq]
    by_cases hrun : (stateOfRun s projectId runId).isSome = true
    · rw [if_pos hrun, ok_bind, h.tokenTypeOrAbort]
      rfl
    · rw [if_neg hrun]
      rfl

theorem UnknownToken.uploadProvider (h : UnknownToken s token) (hkeys : ProjectKeys s)
    (projectId : ProjectId) : uploadProvider s.db projectId (some token) =
      .error (if s.db.ProjectExists projectId then .typeError
        else .problem 403 INVALID_ACCESS_MSG) := by
  have hunknown : ¬ ∃ r ∈ s.db.dataproviders, r.token = token := by
    rintro ⟨r, hr, ht⟩
    exact h.update r hr ht
  unfold Views.uploadProvider
  split_ifs with hproject
  · rw [precheckUploadToken_some hkeys.unique hproject, if_neg hunknown]
    rfl
  · rw [precheckUploadToken_of_no_project hkeys.unique hproject]
    rfl

/-- An endpoint that takes uploads tells whether the project exists. -/
theorem UnknownToken.status_of_isUpload (h : UnknownToken s token) (hkeys : ProjectKeys s)
    (projectId : ProjectId) (runId : RunId) {endpoint : Endpoint} (hupload : endpoint.isUpload) :
    endpoint.status s projectId runId (some token) =
      if s.db.ProjectExists projectId then 500 else 403 := by
  have hstart : ∀ w : World, w.db = s.db → startUpload projectId (some token) w =
      (w, .error (if s.db.ProjectExists projectId then .typeError
        else .problem 403 INVALID_ACCESS_MSG)) := by
    intro w hw
    unfold startUpload
    rw [Action.get_bind, hw, h.uploadProvider hkeys, Action.lift_error_bind]
  cases endpoint with
  | clks settings clkJson receiptToken =>
    simp only [Endpoint.status, projectClksRequest]
    rw [Action.bind_of_error (hstart _ rfl)]
    split_ifs <;> rfl
  | binaryclks settings headers data receiptToken =>
    simp only [Endpoint.status, projectBinaryclksRequest]
    rw [Action.bind_of_error (hstart _ rfl)]
    split_ifs <;> rfl
  | externalUpload config =>
    have henabled : config.enabled = true := hupload
    simp only [Endpoint.status, authorizeExternalUpload]
    rw [ensure, if_pos henabled, ok_bind, h.uploadProvider hkeys]
    split_ifs <;> rfl
  | _ => cases hupload

/-- A request for a result tells whether the run has failed and whether it is waited for. -/
theorem UnknownToken.status_of_runResult (h : UnknownToken s token) (hkeys : ProjectKeys s)
    (projectId : ProjectId) (runId : RunId) (returnObjectStoreAddress : Bool) :
    (Endpoint.runResult returnObjectStoreAddress).status s projectId runId (some token) =
      if stateOfRun s projectId runId = some .error then 500
      else if Unfinished (stateOfRun s projectId runId) then 404
      else 403 := by
  simp only [Endpoint.status, runResultGet, abortIfRunDoesntExist_eq]
  cases hstate : stateOfRun s projectId runId with
  | none => rfl
  | some state =>
    obtain ⟨row, hfilter, rfl⟩ := Option.map_eq_some_iff.mp hstate
    obtain ⟨hrow, hproject⟩ := Option.filter_eq_some_iff.mp hfilter
    have hrunState : s.getRunState runId = .ok row.state := by
      unfold Storage.getRunState
      rw [hrow]
      rfl
    rw [Option.isSome_some, if_pos rfl, ok_bind, hrunState, ok_bind]
    cases hrowState : row.state with
    | completed =>
      obtain ⟨r, hr, hid⟩ := hkeys.runs runId row hrow
      have htype : ∃ resultType, s.getResultType projectId = .ok resultType := by
        have hsome : (s.db.findProject projectId).isSome = true := by
          refine List.find?_isSome.mpr ⟨r, hr, ?_⟩
          rw [hid]
          exact hproject
        obtain ⟨found, hfound⟩ := Option.isSome_iff_exists.mp hsome
        refine ⟨found.resultType, ?_⟩
        unfold Storage.getResultType
        rw [hfound]
        rfl
      obtain ⟨resultType, htype⟩ := htype
      simp only [getResult, htype, ok_bind, h.tokenTypeOrAbort]
      rfl
    | _ => rfl

end Unknown
/-- What an endpoint is indifferent to that neither takes uploads nor asks for a result. -/
theorem Endpoint.indifferent_of_checked {endpoint : Endpoint} (hupload : endpoint.isUpload = false)
    (hresult : ∀ b, endpoint ≠ .runResult b) (s s' : Storage) (projectId : ProjectId)
    (runId : RunId) : endpoint.Indifferent s s' projectId runId :=
  ⟨fun h => by simp [hupload] at h, fun b h => absurd h (hresult b)⟩

theorem not_unfinished_error : ¬ Unfinished (some .error) := by decide

/-- A request with a token that is in neither of two states of the database is answered in the same
way in both if and only if the endpoint is indifferent to what differs between them. -/
theorem status_eq_iff_indifferent {s s' : Storage} (hkeys : ProjectKeys s) (hkeys' : ProjectKeys s')
    {token : Token} (h : UnknownToken s token) (h' : UnknownToken s' token)
    (projectId : ProjectId) (runId : RunId) (endpoint : Endpoint) :
    endpoint.status s projectId runId (some token) =
        endpoint.status s' projectId runId (some token) ↔
      endpoint.Indifferent s s' projectId runId := by
  have hchecked : endpoint ∈ [.projectDescription, .runListing, .runDescription, .runStatus] →
      (endpoint.status s projectId runId (some token) =
        endpoint.status s' projectId runId (some token) ↔
          endpoint.Indifferent s s' projectId runId) := by
    intro hendpoint
    rw [h.status_of_checked hkeys projectId runId hendpoint,
      h'.status_of_checked hkeys' projectId runId hendpoint]
    simp only [List.mem_cons, List.not_mem_nil, or_false] at hendpoint
    refine iff_of_true rfl (Endpoint.indifferent_of_checked ?_ ?_ s s' projectId runId)
    · rcases hendpoint with rfl | rfl | rfl | rfl <;> rfl
    · rcases hendpoint with rfl | rfl | rfl | rfl <;> simp
  have huploads : endpoint.isUpload = true → (∀ b, endpoint ≠ .runResult b) →
      (endpoint.status s projectId runId (some token) =
        endpoint.status s' projectId runId (some token) ↔
          endpoint.Indifferent s s' projectId runId) := by
    intro hupload hresult
    rw [h.status_of_isUpload hkeys projectId runId hupload,
      h'.status_of_isUpload hkeys' projectId runId hupload]
    have hstatus : (if s.db.ProjectExists projectId then 500 else 403) =
        (if s'.db.ProjectExists projectId then 500 else 403) ↔
          (s.db.ProjectExists projectId ↔ s'.db.ProjectExists projectId) := by
      by_cases hp : s.db.ProjectExists projectId <;>
        by_cases hp' : s'.db.ProjectExists projectId <;> simp [hp, hp']
    rw [hstatus]
    exact ⟨fun hiff => ⟨fun _ => hiff, fun b he => absurd he (hresult b)⟩,
      fun hindifferent => hindifferent.project hupload⟩
  cases endpoint with
  | projectDescription | runListing | runDescription | runStatus => exact hchecked (by simp)
  | clks | binaryclks => exact huploads rfl (by simp)
  | externalUpload config =>
    cases henabled : config.enabled with
    | true => exact huploads henabled (by simp)
    | false =>
      have hstatus : ∀ s : Storage,
          (Endpoint.externalUpload config).status s projectId runId (some token) = 500 := by
        intro s
        simp only [Endpoint.status, authorizeExternalUpload]
        rw [ensure, if_neg (by simp [henabled])]
        rfl
      rw [hstatus, hstatus]
      have hupload : (Endpoint.externalUpload config).isUpload = false := henabled
      exact iff_of_true rfl (Endpoint.indifferent_of_checked hupload (by simp) s s' projectId runId)
  | runResult returnObjectStoreAddress =>
    rw [h.status_of_runResult hkeys, h'.status_of_runResult hkeys']
    have hstatus : ∀ state state' : Option Service.RunState,
        (if state = some .error then 500 else if Unfinished state then 404 else 403) =
            (if state' = some .error then 500 else if Unfinished state' then 404 else 403) ↔
          (state = some .error ↔ state' = some .error) ∧
            (Unfinished state ↔ Unfinished state') := by
      intro state state'
      by_cases herror : state = some .error
      · subst herror
        by_cases herror' : state' = some .error
        · subst herror'
          simp
        · by_cases hwait' : Unfinished state' <;> simp [herror', hwait', not_unfinished_error]
      · by_cases herror' : state' = some .error
        · subst herror'
          by_cases hwait : Unfinished state <;> simp [herror, hwait, not_unfinished_error]
        · by_cases hwait : Unfinished state <;> by_cases hwait' : Unfinished state' <;>
            simp [herror, herror', hwait, hwait']
    rw [hstatus]
    refine ⟨fun hiff => ⟨fun hupload => ?_, fun b _ => hiff⟩, fun hindifferent =>
      hindifferent.run returnObjectStoreAddress rfl⟩
    cases hupload

def withRun (state : Service.RunState) : Storage :=
  { permutedProject with runs := Dict.empty.set "r" ⟨"p", state, 2, .default, false⟩ }

def withoutRuns : Storage := { permutedProject with runs := Dict.empty }

theorem uniqueColumns_permutedProject : permutedProject.db.UniqueColumns :=
  ⟨by decide, by decide⟩

theorem projectKeys_withRun (state : Service.RunState) : ProjectKeys (withRun state) := by
  refine ⟨uniqueColumns_permutedProject, fun runId row h => ?_⟩
  rw [withRun, Dict.get?_set] at h
  split_ifs at h
  · cases h
    exact ⟨_, List.mem_singleton_self _, rfl⟩
  · cases h

theorem projectKeys_withoutRuns : ProjectKeys withoutRuns :=
  ⟨uniqueColumns_permutedProject, fun runId row h => by simp [withoutRuns] at h⟩

theorem unknownToken_of_permutedProject {s : Storage} (htokens : s.accessTokens =
      permutedProject.accessTokens) (hdb : s.db = permutedProject.db) : UnknownToken s "z" := by
  refine ⟨fun projectId h => ?_, ?_, ?_⟩
  · rw [htokens, permutedProject, Dict.get?_set] at h
    split_ifs at h <;> simp at h
  · rw [hdb]
    decide
  · rw [hdb]
    decide

/-- Nobody is told whether a completed run exists. -/
theorem status_eq_completed :
    (Endpoint.runResult false).status (withRun .completed) "p" "r" (some "z") =
      (Endpoint.runResult false).status withoutRuns "p" "r" (some "z") := by
  refine (status_eq_iff_indifferent (projectKeys_withRun .completed) projectKeys_withoutRuns
    (unknownToken_of_permutedProject rfl rfl) (unknownToken_of_permutedProject rfl rfl) "p" "r"
    (.runResult false)).mpr ⟨fun h => ?_, fun _ _ => ?_⟩
  · cases h
  · decide

/-- Everybody is told whether a run is waited for. -/
theorem status_ne_running :
    ProjectKeys (withRun .running) ∧ ProjectKeys withoutRuns ∧
      UnknownToken (withRun .running) "z" ∧ UnknownToken withoutRuns "z" ∧
      (Endpoint.runResult false).status (withRun .running) "p" "r" (some "z") = 404 ∧
      (Endpoint.runResult false).status withoutRuns "p" "r" (some "z") = 403 :=
  ⟨projectKeys_withRun .running, projectKeys_withoutRuns, unknownToken_of_permutedProject rfl rfl,
    unknownToken_of_permutedProject rfl rfl, by decide, by decide⟩

end Views
end EntityService
