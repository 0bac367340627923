import EntityService.Lib.Sorting
import EntityService.Views.Project

/-! The checks of a request that carries an update token, and the requests from their start. -/
namespace EntityService
open Lib

namespace Database

/-- The data provider with an update token. The row is subscripted even when there is none. -/
def getDataproviderId (db : Database) (updateToken : Token) : Except Error DpId := do
  let row ← orRaise (db.dataproviders.find? (fun r => r.token = updateToken)) .typeError
  return row.id

/-- Compares the id with `None`, which no row has. -/
def checkUpdateAuth (db : Database) (updateToken : Token) : Except Error Bool := do
  let _ ← db.getDataproviderId updateToken
  return true

structure UniqueColumns (db : Database) : Prop where
  projectIds : (db.projects.map ProjectRow.projectId).Nodup
  tokens : (db.dataproviders.map DataproviderRow.token).Nodup

/-- The project exists and is not marked for deletion. -/
def ProjectExists (db : Database) (projectId : ProjectId) : Prop :=
  ∃ r ∈ db.projects, r.projectId = projectId ∧ r.markedForDeletion = false

def UpdateTokenOf (db : Database) (projectId : ProjectId) (token : Token) : Prop :=
  ∃ r ∈ db.dataproviders, r.token = token ∧ r.project = projectId

instance (db : Database) (projectId : ProjectId) : Decidable (db.ProjectExists projectId) :=
  inferInstanceAs (Decidable (∃ r ∈ db.projects, _))

instance (db : Database) (projectId : ProjectId) (token : Token) :
    Decidable (db.UpdateTokenOf projectId token) :=
  inferInstanceAs (Decidable (∃ r ∈ db.dataproviders, _))

theorem findProject_of_mem {db : Database} (h : (db.projects.map ProjectRow.projectId).Nodup)
    {row : ProjectRow} (hrow : row ∈ db.projects) : db.findProject row.projectId = some row := by
  unfold findProject
  rw [← List.head?_filter, filter_eq_singleton h hrow]
  rfl

theorem checkProjectExists_iff {db : Database} (h : db.UniqueColumns) (projectId : ProjectId) :
    db.checkProjectExists projectId ↔ db.ProjectExists projectId := by
  have hle : db.projects.countP
      (fun r => r.projectId = projectId ∧ r.markedForDeletion = false) ≤ 1 :=
    countP_le_one_of_nodup_map h.projectIds fun r hr => (of_decide_eq_true hr).1
  have hpos : 0 < db.projects.countP
      (fun r => r.projectId = projectId ∧ r.markedForDeletion = false) ↔
      db.ProjectExists projectId := by
    rw [List.countP_pos_iff]
    simp only [decide_eq_true_eq]
    rfl
  rw [← hpos, checkProjectExists, decide_eq_true_eq]
  omega

section Token
variable {db : Database} {token : Token}

theorem getDataproviderId_eq_ok {dpId : DpId} :
    db.getDataproviderId token = .ok dpId ↔
      ∃ r, db.dataproviders.find? (fun r => r.token = token) = some r ∧ r.id = dpId := by
  unfold getDataproviderId
  simp only [bind_eq_ok, orRaise_eq_ok, pure_eq_ok, Except.ok.injEq]

theorem getDataproviderId_of_unknown (h : ∀ r ∈ db.dataproviders, r.token ≠ token) :
    db.getDataproviderId token = .error .typeError := by
  have hnone : db.dataproviders.find? (fun r => r.token = token) = none :=
    List.find?_eq_none.mpr fun r hr => by simpa using h r hr
  rw [getDataproviderId, hnone]
  rfl

/-- A token is an error of the wrong kind or it is accepted, whatever its project. -/
theorem checkUpdateAuth_eq : db.checkUpdateAuth token =
    if ∃ r ∈ db.dataproviders, r.token = token then .ok true else .error .typeError := by
  unfold checkUpdateAuth
  split_ifs with h
  · obtain ⟨r, hr, ht⟩ := h
    have hsome : (db.dataproviders.find? (fun r => r.token = token)).isSome :=
      List.find?_isSome.mpr ⟨r, hr, by simpa using ht⟩
    obtain ⟨r', hr'⟩ := Option.isSome_iff_exists.mp hsome
    rw [getDataproviderId_eq_ok.mpr ⟨r', hr', rfl⟩]
    rfl
  · rw [getDataproviderId_of_unknown fun r hr ht => h ⟨r, hr, ht⟩]
    rfl

theorem UpdateTokenOf.provider (hkeys : db.UniqueColumns) {projectId : ProjectId}
    (h : db.UpdateTokenOf projectId token) {dpId : DpId}
    (hid : db.getDataproviderId token = .ok dpId) :
    ∃ d ∈ db.dataproviders, d.id = dpId ∧ d.project = projectId := by
  obtain ⟨r, hr, ht, hp⟩ := h
  obtain ⟨r', hr', rfl⟩ := getDataproviderId_eq_ok.mp hid
  have hmem := List.mem_of_find?_eq_some hr'
  have ht' : r'.token = token := by simpa using List.find?_some hr'
  have heq : r' = r := List.inj_on_of_nodup_map hkeys.tokens hmem hr (ht'.trans ht.symm)
  exact ⟨r', hmem, rfl, heq ▸ hp⟩

end Token
end Database

namespace Views

def INVALID_ACCESS_MSG : String := "Invalid access token or project doesn't exist"

def abortIfProjectDoesntExist (db : Database) (projectId : ProjectId) : Except Error Unit :=
  ensure (db.checkProjectExists projectId) (.problem 403 INVALID_ACCESS_MSG)

def abortIfInvalidDataproviderToken (db : Database) (updateToken : Token) : Except Error Unit := do
  let resourceExists ← db.checkUpdateAuth updateToken
  ensure resourceExists (.problem 403 INVALID_ACCESS_MSG)

/-- Check the project, and then the value of the `Authorization` header if there is one. -/
def precheckUploadToken (db : Database) (projectId : ProjectId) (authorization : Option Token) :
    Except Error Token := do
  abortIfProjectDoesntExist db projectId
  let token ← orRaise authorization (.problem 401 "Authentication token required")
  abortIfInvalidDataproviderToken db token
  return token

/-- The data provider that a request with an update token acts on. -/
def uploadProvider (db : Database) (projectId : ProjectId) (authorization : Option Token) :
    Except Error DpId := do
  let token ← precheckUploadToken db projectId authorization
  db.getDataproviderId token

/-- Start an upload: find its data provider and lock the provider for it. The result is the
provider and whether the project uses blocking. -/
def startUpload (projectId : ProjectId) (authorization : Option Token) : Task (DpId × Bool) := do
  let w ← Action.get
  let dpId ← Action.lift (uploadProvider w.db projectId authorization)
  let row ← Action.lift (orRaise (w.db.findProject projectId) .databaseError)
  let (uploadStateUpdated, db) := w.db.isDataproviderAllowedToUploadAndLock dpId
  Action.modify fun w => { w with db := db }
  Action.lift (ensure uploadStateUpdated
    (.problem 403 "This token has already been used to upload clks."))
  return (dpId, row.usesBlocking)

def projectClksRequest (settings : Settings) (projectId : ProjectId)
    (authorization : Option Token) (clkJson : ClkJson) (receiptToken : Token) :
    Task (Job × Bool) := do
  let (dpId, usesBlocking) ← startUpload projectId authorization
  projectClksPost settings projectId dpId clkJson receiptToken usesBlocking

def projectBinaryclksRequest (settings : Settings) (projectId : ProjectId)
    (authorization : Option Token) (headers : BinaryHeaders) (data : Bytes)
    (receiptToken : Token) : Task Bool := do
  let (dpId, _) ← startUpload projectId authorization
  projectBinaryclksPost settings projectId dpId headers data receiptToken

/-- The check of a token is exact, and an upload acts on a data provider of its project. -/
structure AuthorisedPerProject (db : Database) (projectId : ProjectId)
    (authorization : Option Token) : Prop where
  accepts : ∀ token, precheckUploadToken db projectId authorization = .ok token ↔
    db.ProjectExists projectId ∧ authorization = some token ∧ db.UpdateTokenOf projectId token
  rejects : ∀ e, precheckUploadToken db projectId authorization = .error e →
    ∃ status detail, e = .problem status detail ∧ (status = 401 ∨ status = 403)
  actsOn : ∀ dpId, uploadProvider db projectId authorization = .ok dpId →
    ∃ d ∈ db.dataproviders, d.id = dpId ∧ d.project = projectId

section Precheck
variable {db : Database} {projectId : ProjectId}

theorem precheckUploadToken_of_no_project (hkeys : db.UniqueColumns)
    (h : ¬ db.ProjectExists projectId) (authorization : Option Token) :
    precheckUploadToken db projectId authorization = .error (.problem 403 INVALID_ACCESS_MSG) := by
  have hcheck : ¬ db.checkProjectExists projectId := fun hc =>
    h ((Database.checkProjectExists_iff hkeys projectId).mp hc)
  rw [precheckUploadToken, abortIfProjectDoesntExist, ensure, if_neg hcheck]
  rfl

theorem precheckUploadToken_none (hkeys : db.UniqueColumns) (h : db.ProjectExists projectId) :
    precheckUploadToken db projectId none =
      .error (.problem 401 "Authentication token required") := by
  have hcheck := (Database.checkProjectExists_iff hkeys projectId).mpr h
  rw [precheckUploadToken, abortIfProjectDoesntExist, ensure, if_pos hcheck]
  rfl

theorem precheckUploadToken_some (hkeys : db.UniqueColumns) (h : db.ProjectExists projectId)
    (token : Token) : precheckUploadToken db projectId (some token) =
      if ∃ r ∈ db.dataproviders, r.token = token then .ok token else .error .typeError := by
  have hcheck := (Database.checkProjectExists_iff hkeys projectId).mpr h
  rw [precheckUploadToken, abortIfProjectDoesntExist, ensure, if_pos hcheck]
  simp only [ok_bind, orRaise, Option.elim_some, abortIfInvalidDataproviderToken,
    Database.checkUpdateAuth_eq]
  split_ifs with hr
  · rfl
  · rfl

end Precheck

/-- The check is exact when it gets to the token only with a token of the project. -/
theorem authorisedPerProject_iff {db : Database} (hkeys : db.UniqueColumns)
    (projectId : ProjectId) (authorization : Option Token) :
    AuthorisedPerProject db projectId authorization ↔
      ¬ db.ProjectExists projectId ∨ authorization = none ∨
        ∃ token, authorization = some token ∧ db.UpdateTokenOf projectId token := by
  constructor
  · intro h
    by_contra hcon
    push Not at hcon
    obtain ⟨hproject, hne, hforeign⟩ := hcon
    obtain ⟨token, rfl⟩ := Option.ne_none_iff_exists'.mp hne
    have hcheck := precheckUploadToken_some hkeys hproject token
    split_ifs at hcheck with hr
    · exact hforeign token rfl ((h.accepts token).mp hcheck).2.2
    · obtain ⟨status, detail, he, -⟩ := h.rejects _ hcheck
      cases he
  · intro h
    by_cases hproject : db.ProjectExists projectId
    · rcases h with h | rfl | ⟨token, rfl, htoken⟩
      · exact absurd hproject h
      · have hcheck := precheckUploadToken_none hkeys hproject
        refine ⟨fun token => by simp [hcheck], fun e he => ?_, fun dpId hid => ?_⟩
        · rw [hcheck] at he
          exact ⟨401, _, (Except.error.inj he).symm, .inl rfl⟩
        · rw [uploadProvider, hcheck] at hid
          cases hid
      · obtain ⟨r, hr, ht, hp⟩ := htoken
        have hcheck := precheckUploadToken_some hkeys hproject token
        rw [if_pos ⟨r, hr, ht⟩] at hcheck
        refine ⟨fun token' => ?_, fun e he => ?_, fun dpId hid => ?_⟩
        · rw [hcheck, Except.ok.injEq, Option.some.injEq]
          constructor
          · rintro rfl
            exact ⟨hproject, rfl, r, hr, ht, hp⟩
          · exact fun h => h.2.1
        · rw [hcheck] at he
          cases he
        · rw [uploadProvider, hcheck] at hid
          exact Database.UpdateTokenOf.provider hkeys ⟨r, hr, ht, hp⟩ hid
    · have hcheck := precheckUploadToken_of_no_project hkeys hproject authorization
      refine ⟨fun token => by simp [hcheck, hproject], fun e he => ?_, fun dpId hid => ?_⟩
      · rw [hcheck] at he
        exact ⟨403, _, (Except.error.inj he).symm, .inr rfl⟩
      · rw [uploadProvider, hcheck] at hid
        cases hid

def twoProjects : Database where
  projects := [⟨"p", none, none, 2, .groups, false, false⟩,
    ⟨"q", none, none, 2, .groups, false, false⟩]
  dataproviders := [⟨1, "a", .notStarted, "p"⟩, ⟨2, "b", .notStarted, "p"⟩,
    ⟨3, "c", .notStarted, "q"⟩, ⟨4, "d", .notStarted, "q"⟩]
  uploads := []
  blocks := []
  encodings := []
  encodingblocks := []
  nextBlockId := 1

theorem uniqueColumns_twoProjects : twoProjects.UniqueColumns := ⟨by decide, by decide⟩

theorem authorisedPerProject_own_token : twoProjects.UniqueColumns ∧
    AuthorisedPerProject twoProjects "p" (some "b") :=
  ⟨uniqueColumns_twoProjects, (authorisedPerProject_iff uniqueColumns_twoProjects "p"
    (some "b")).mpr (.inr (.inr ⟨"b", rfl, by decide⟩))⟩

/-- The token of a provider of the second project opens an upload to the first, for a provider
that the first does not have. A token that nobody has is a `TypeError`. -/
theorem not_authorisedPerProject_foreign_token : twoProjects.UniqueColumns ∧
    precheckUploadToken twoProjects "p" (some "c") = .ok "c" ∧
    uploadProvider twoProjects "p" (some "c") = .ok 3 ∧
    precheckUploadToken twoProjects "p" (some "x") = .error .typeError ∧
    ¬ AuthorisedPerProject twoProjects "p" (some "c") := by
  have hcheck : precheckUploadToken twoProjects "p" (some "c") = .ok "c" := by decide
  refine ⟨uniqueColumns_twoProjects, hcheck, by decide, by decide, fun h => ?_⟩
  have htoken := ((h.accepts "c").mp hcheck).2.2
  revert htoken
  decide

end Views
end EntityService
