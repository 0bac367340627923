import EntityService.Models.InForce

/-! A project whose deletion has been requested is gone for its clients at once, and it does not
come back, whatever else is created or deleted. Only what is under way can still go on. -/
namespace EntityService.Models
open Lib Service Views Tasks.ProjectCleanup

/-- The endpoint looks for the project before it looks at anything else. -/
def ChecksProject : Endpoint → Bool
  | .projectDescription | .clks .. | .binaryclks .. | .runListing => true
  | .externalUpload config => config.enabled
  | .runDescription | .runStatus | .runResult _ => false

section Refused
variable {s : Storage} {projectId : ProjectId}

theorem abortIfProjectDoesntExist_of_not_exists (hkeys : s.db.UniqueColumns)
    (h : ¬ s.db.ProjectExists projectId) :
    abortIfProjectDoesntExist s.db projectId = .error (.problem 403 INVALID_ACCESS_MSG) :=
  if_neg fun hcheck => h ((Database.checkProjectExists_iff hkeys projectId).mp hcheck)

/-- An upload is refused before anything is written. -/
theorem startUpload_of_not_exists {w : World} (hkeys : w.db.UniqueColumns)
    (h : ¬ w.db.ProjectExists projectId) (authorization : Option Token) :
    startUpload projectId authorization w = (w, .error (.problem 403 INVALID_ACCESS_MSG)) := by
  have hprovider : uploadProvider w.db projectId authorization =
      .error (.problem 403 INVALID_ACCESS_MSG) := by
    rw [uploadProvider, precheckUploadToken_of_no_project hkeys h]
    rfl
  rw [startUpload, Action.get_bind, hprovider]
  rfl

theorem status_of_not_exists (hkeys : s.db.UniqueColumns) (h : ¬ s.db.ProjectExists projectId)
    {endpoint : Endpoint} (hchecks : ChecksProject endpoint) (runId : RunId)
    (authorization : Option Token) : endpoint.status s projectId runId authorization = 403 := by
  have habort := abortIfProjectDoesntExist_of_not_exists hkeys h
  cases endpoint with
  | projectDescription =>
    rw [Endpoint.status, projectGet, habort]
    rfl
  | clks =>
    rw [Endpoint.status, projectClksRequest,
      Action.bind_of_error (startUpload_of_not_exists hkeys h authorization)]
    rfl
  | binaryclks =>
    rw [Endpoint.status, projectBinaryclksRequest,
      Action.bind_of_error (startUpload_of_not_exists hkeys h authorization)]
    rfl
  | externalUpload config =>
    have henabled : config.enabled = true := hchecks
    rw [Endpoint.status, authorizeExternalUpload, ensure, if_pos henabled, uploadProvider,
      precheckUploadToken_of_no_project hkeys h]
    rfl
  | runListing =>
    rw [Endpoint.status, runsGet, authorizeRunListing, habort]
    rfl
  | runDescription | runStatus | runResult => cases hchecks

end Refused

section Deleted
variable {settings : Settings} {d d' : Deployment} {row : ProjectRow}

theorem not_exists_of_marked {r : Registry} (hkeys : r.db.UniqueColumns) {projectId : ProjectId}
    (h : Marked r projectId) : ¬ r.db.ProjectExists projectId := by
  rintro ⟨row, hrow, hid, hunmarked⟩
  obtain ⟨column, hcolumn, hid', hmarked⟩ := h
  obtain ⟨row', hrow', rfl⟩ := List.mem_map.mp hcolumn
  obtain rfl := List.inj_on_of_nodup_map hkeys.projectIds hrow hrow' (hid.trans hid'.symm)
  rw [show row.markedForDeletion = true from hmarked] at hunmarked
  cases hunmarked

/-- Once the deletion of a project has been requested, its description, its runs and its uploads
are refused in every later state, with any token. -/
theorem refused_of_marked (h : Deployment.Reaches settings .new d)
    (hrow : row ∈ d.pool.shared.db.projects) (hmarked : row.markedForDeletion = true)
    (h' : Deployment.Reaches settings d d') {endpoint : Endpoint}
    (hchecks : ChecksProject endpoint) (runId : RunId) (authorization : Option Token) :
    endpoint.status d'.pool.shared row.projectId runId authorization = 403 := by
  have hextends := extends_of_reaches (sound_of_reaches h) h'
  have hgone : Marked d'.registry row.projectId :=
    hextends.marked _ ⟨_, List.mem_map_of_mem hrow, rfl, hmarked⟩
  have hkeys := (sound_of_reaches (h.trans h')).recorded.uniqueColumns
  exact status_of_not_exists hkeys (not_exists_of_marked hkeys hgone) hchecks runId authorization

theorem reaches_run {schedule : List (ℕ × DeployedAction)} {pool : Pool Storage DeployedProcess}
    (h : d.pool.run (deployed settings) schedule = some pool) :
    Deployment.Reaches settings d ⟨pool, d.nextDpId, d.created⟩ := by
  induction schedule generalizing d with
  | nil =>
    obtain rfl := Option.some.inj h
    exact .refl
  | cons e schedule ih =>
    obtain ⟨pool', hstep, hrun⟩ := Option.bind_eq_some_iff.mp h
    exact .head (.run hstep) (ih (d := ⟨pool', d.nextDpId, d.created⟩) hrun)

/-- Steps of the service or of the deletion of a project, of the processes at the indices. -/
def systemAll (is : List ℕ) : List (ℕ × DeployedAction) :=
  (proceedAll is).map fun e => (e.1, .system e.2)

def deletedDocument : Deployment :=
  let d := Deployment.new.create (lettered 'p') permutationsDocument
  ⟨⟨d.pool.shared, d.pool.processes ++ [.system (.projectDelete ⟨"p", some "pr", .received⟩)]⟩,
    d.nextDpId, d.created⟩

theorem reaches_deletedDocument : Deployment.Reaches settings .new deletedDocument :=
  (reaches_create .refl (lettered 'p') permutationsDocument).tail (.arrive rfl)

/-- The request is accepted, and then another project is created. -/
theorem refused_deletedDocument : ∃ pool,
    deletedDocument.pool.run (deployed Tasks.defaultSettings) (systemAll [0, 0, 0, 0]) =
        some pool ∧
      Endpoint.runListing.status ((⟨pool, deletedDocument.nextDpId, deletedDocument.created⟩ :
        Deployment).create (lettered 'q') permutationsDocument).pool.shared "p" "r"
          (some "pr") = 403 := by
  have hrun : (deletedDocument.pool.run (deployed Tasks.defaultSettings)
      (systemAll [0, 0, 0, 0])).map (fun p => p.shared.db.projects) =
        some [⟨"p", some 512, none, 2, .permutations, true, false⟩] := by decide
  obtain ⟨pool, hpool, hprojects⟩ := Option.map_eq_some_iff.mp hrun
  have hreaches : Deployment.Reaches Tasks.defaultSettings .new
      ⟨pool, deletedDocument.nextDpId, deletedDocument.created⟩ :=
    reaches_deletedDocument.trans (reaches_run hpool)
  have hrow : ⟨"p", some 512, none, 2, .permutations, true, false⟩ ∈ pool.shared.db.projects := by
    rw [hprojects]
    exact List.mem_singleton_self _
  exact ⟨pool, hpool, refused_of_marked hreaches hrow rfl
    (.single (step_create _ (lettered 'q') permutationsDocument)) rfl "r" (some "pr")⟩

end Deleted
end EntityService.Models
