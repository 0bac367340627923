import EntityService.Tasks.ProjectCleanup

/-! What each step can do once projects are deleted while the service runs. -/
namespace EntityService.Tasks.ProjectCleanup
open Lib Service Views

/-- The rows that a process stores in its next transaction. -/
inductive Stores (s : Storage) : Process → Storage → Prop
  | scores {projectId : ProjectId} {runId : RunId} (filename : FileName) (scores : Bytes)
      (hrun : s.RunExists runId) :
      Stores s (.runTask (.aggregateComparisons projectId runId true .pending))
        { s with
          objects := s.objects.set filename ⟨projectId, scores⟩
          similarityScores := s.similarityScores ++ [(runId, filename)] }
  | groups {projectId : ProjectId} {runId : RunId} (groups : List Group)
      (hrun : s.RunExists runId) :
      Stores s (.runTask (.saveAndPermute projectId runId .pending))
        { s with runResults := s.runResults ++ [⟨runId, groups⟩] }
  | permutations {runId : RunId} {row : RunRow} (rows : List PermutationRow) (mask : List ℕ)
      (hrun : s.runs.get? runId = some row)
      (hrows : ∀ r ∈ rows, r.run = runId ∧ r.dp ∈ (s.getDataproviderIds row.project).take 2 ∧
        ProviderExists s.toServer r.dp) :
      Stores s (.runTask (.permuteMappingData runId .pending))
        { s with
          permutations := s.permutations ++ rows
          permutationMasks := s.permutationMasks ++ [⟨row.project, runId, mask⟩] }
  | upload {t : Process} {w : Written} {rows : UploadRows} {s' : Storage}
      (hrows : uploadRows w t = some rows) (hinsert : insertUploadRows s rows = .ok s') :
      Stores s t s'
  | nothing {t : Process} : Stores s t s

section Stores
variable {s s' : Storage} {w : Written} {t : Process}

/-- The first two data providers are given a permutation each. -/
theorem permuteMappingData_ok {shuffles : Permutation.Shuffles} {projectId : ProjectId}
    {runId : RunId} {n₁ n₂ : ℕ}
    (h : Permutation.permuteMappingData shuffles projectId runId n₁ n₂ s = (s', .ok ())) :
    ∃ dpA dpB a b mask, (s.getDataproviderIds projectId)[0]? = some dpA ∧
      (s.getDataproviderIds projectId)[1]? = some dpB ∧
      ProviderExists s.toServer dpA ∧ ProviderExists s.toServer dpB ∧
      s' = { s with
        permutations := s.permutations ++ [⟨dpA, runId, a⟩, ⟨dpB, runId, b⟩]
        permutationMasks := s.permutationMasks ++ [⟨projectId, runId, mask⟩] } := by
  have h := Action.atomic_eq_ok.mp h
  obtain ⟨groups, -, h⟩ := bind_eq_ok.mp h
  obtain ⟨⟨a, b, mask⟩, -, h⟩ := bind_eq_ok.mp h
  obtain ⟨dpA, hdpA, h⟩ := bind_eq_ok.mp h
  obtain ⟨s₁, hfirst, h⟩ := bind_eq_ok.mp h
  obtain ⟨dpB, hdpB, h⟩ := bind_eq_ok.mp h
  obtain ⟨s₂, hsecond, h⟩ := bind_eq_ok.mp h
  obtain ⟨u₁, hkeysA, hfirst⟩ := bind_eq_ok.mp hfirst
  cases hfirst
  obtain ⟨u₂, hkeysB, hsecond⟩ := bind_eq_ok.mp hsecond
  cases hsecond
  obtain ⟨u₃, -, h⟩ := bind_eq_ok.mp h
  cases h
  exact ⟨dpA, dpB, a, b, mask, orRaise_eq_ok.mp hdpA, orRaise_eq_ok.mp hdpB,
    (ensure_eq_ok.mp hkeysA).2, (ensure_eq_ok.mp hkeysB).2, by simp⟩

theorem stores_permutations {shuffles : Permutation.Shuffles} {runId : RunId} {row : RunRow}
    {n₁ n₂ : ℕ} (hrow : s.runs.get? runId = some row)
    (h : Permutation.permuteMappingData shuffles row.project runId n₁ n₂ s = (s', .ok ())) :
    Stores s (.runTask (.permuteMappingData runId .pending)) s' := by
  obtain ⟨dpA, dpB, a, b, mask, hdpA, hdpB, hexistsA, hexistsB, rfl⟩ := permuteMappingData_ok h
  have hfound : ∀ {i : ℕ} {dpId : DpId}, i < 2 →
      (s.getDataproviderIds row.project)[i]? = some dpId →
        dpId ∈ (s.getDataproviderIds row.project).take 2 := by
    intro i dpId hi hdp
    exact List.mem_of_getElem? ((List.getElem?_take_of_lt hi).trans hdp)
  refine .permutations [⟨dpA, runId, a⟩, ⟨dpB, runId, b⟩] mask hrow ?_
  intro r hr
  rcases List.mem_cons.mp hr with rfl | hr
  · exact ⟨rfl, hfound Nat.zero_lt_two hdpA, hexistsA⟩
  · obtain rfl := List.mem_singleton.mp hr
    exact ⟨rfl, hfound Nat.one_lt_two hdpB, hexistsB⟩

theorem stores_of_store (h : store w s t = .ok s') : Stores s t s' := by
  unfold store at h
  split at h
  case h_1 projectId runId =>
    obtain ⟨u, hrun, h⟩ := bind_eq_ok.mp h
    cases h
    exact .scores w.filename w.scores (ensure_eq_ok.mp hrun)
  case h_2 projectId runId =>
    obtain ⟨u, hrun, h⟩ := bind_eq_ok.mp h
    cases h
    exact .groups w.groups (ensure_eq_ok.mp hrun)
  case h_3 runId =>
    obtain ⟨row, hrow, h⟩ := bind_eq_ok.mp h
    split at h
    case h_1 s₁ u hpermute =>
      cases h
      exact stores_permutations (orRaise_eq_ok.mp hrow) hpermute
    case h_2 => cases h
  case h_4 =>
    split at h
    case h_1 rows hrows => exact .upload hrows h
    case h_2 =>
      cases h
      exact .nothing

/-- What is stored leaves these tables as they are. -/
structure SameTables (s s' : Storage) : Prop where
  runs : s'.runs = s.runs
  projects : s'.db.projects = s.db.projects
  dataproviders : s'.db.dataproviders = s.db.dataproviders
  uploads : s'.db.uploads = s.db.uploads

theorem Stores.sameTables (h : Stores s t s') : SameTables s s' := by
  cases h with
  | upload hrows hinsert =>
    obtain ⟨u, -, hinsert⟩ := bind_eq_ok.mp hinsert
    cases hinsert
    exact ⟨rfl, rfl, rfl, rfl⟩
  | _ => exact ⟨rfl, rfl, rfl, rfl⟩

end Stores

inductive RemoveStep (s : Storage) (t : RemoveProject) :
    Action → Storage → RemoveProject → List SystemProcess → Prop
  | begin (hphase : t.phase = .pending) (todo : List RunId) :
      RemoveStep s t .proceed s { t with phase := .settingStates todo } []
  | setState {runId : RunId} {todo : List RunId} {hash : Cache.RunHash}
      (hphase : t.phase = .settingStates (runId :: todo)) :
      RemoveStep s t .proceed { s with toServer := s.setHash runId hash }
        { t with phase := .settingStates todo } []
  | gather (hphase : t.phase = .settingStates []) :
      RemoveStep s t .proceed s
        { t with
          deleted := { t.deleted with dpIds := s.getDataproviderIds t.projectId }
          phase := .gathered } []
  | deleteResults (hphase : t.phase = .gathered) :
      RemoveStep s t .proceed s
        { t with
          deleted := { t.deleted with runResults := s.runResultsOf t.projectId }
          phase := .resultsDeleted } []
  | deletePermutations (hphase : t.phase = .resultsDeleted) :
      RemoveStep s t .proceed s
        { t with
          deleted := { t.deleted with permutations := s.permutationsOf t.projectId }
          phase := .permutationsDeleted } []
  | deleteMasks (hphase : t.phase = .permutationsDeleted) :
      RemoveStep s t .proceed s
        { t with
          deleted := { t.deleted with permutationMasks := s.permutationMasksOf t.projectId }
          phase := .masksDeleted } []
  | commit (hphase : t.phase = .masksDeleted) :
      RemoveStep s t .proceed (s.commitDeleted t.deleted) { t with phase := .committed } []
  | gatherObjects {files : List FileName} (hphase : t.phase = .committed) :
      RemoveStep s t .proceed s { t with phase := .objectsGathered files } []
  | finish {files : List FileName} (hphase : t.phase = .objectsGathered files) :
      RemoveStep s t .proceed s { t with phase := .ended }
        [.deleteMinioObjects t.projectId files false]
  | fail : RemoveStep s t .raise s { t with phase := .failed } []

theorem removeStep_of_step {s s' : Storage} {t t' : RemoveProject} {a : Action}
    {started : List SystemProcess} (h : t.step s a = some (s', t', started)) :
    RemoveStep s t a s' t' started := by
  unfold RemoveProject.step at h
  split at h
  case h_1 =>
    unfold RemoveProject.proceed at h
    split at h
    case h_1 hphase => cases h; exact .begin hphase _
    case h_2 hphase => cases h; exact .setState hphase
    case h_3 hphase => cases h; exact .gather hphase
    case h_4 hphase => cases h; exact .deleteResults hphase
    case h_5 hphase => cases h; exact .deletePermutations hphase
    case h_6 hphase => cases h; exact .deleteMasks hphase
    case h_7 hphase => cases h; exact .commit hphase
    case h_8 hphase =>
      obtain ⟨files, -, he⟩ := Option.map_eq_some_iff.mp h
      cases he
      exact .gatherObjects hphase
    case h_9 hphase => cases h; exact .finish hphase
    case h_10 => cases h
    case h_11 => cases h
  case h_2 =>
    split_ifs at h
    cases h
    exact .fail
  case h_3 => cases h

inductive DeleteStep (s : Storage) (r : DeleteRequest) :
    Action → Storage → DeletePhase → Bool → Prop
  | check {phase : DeletePhase} (hphase : phase ≠ .marked ∧ phase ≠ .accepted) :
      DeleteStep s r .proceed s phase false
  | mark (hphase : r.phase = .authorized) :
      DeleteStep s r .proceed (s.markProjectDeleted r.projectId) .marked false
  | accept (hphase : r.phase = .marked) : DeleteStep s r .proceed s .accepted true
  | fail : DeleteStep s r .raise s .refused false

theorem deleteStep_of_step {s s' : Storage} {r : DeleteRequest} {a : Action} {phase : DeletePhase}
    {removes : Bool} (h : r.step s a = some (s', phase, removes)) :
    DeleteStep s r a s' phase removes := by
  unfold DeleteRequest.step at h
  split at h
  case h_1 =>
    split at h
    case h_1 =>
      cases h
      refine .check ?_
      split_ifs <;> decide
    case h_2 =>
      cases h
      refine .check ?_
      split_ifs <;> decide
    case h_3 hphase => cases h; exact .mark hphase
    case h_4 hphase => cases h; exact .accept hphase
    case h_5 => cases h
    case h_6 => cases h
  case h_2 =>
    split_ifs at h
    cases h
    exact .fail
  case h_3 => cases h

inductive SystemStep (settings : Settings) (s : Storage) :
    SystemProcess → Action → Storage → SystemProcess → List SystemProcess → Prop
  | service {t t' : Process} {a : Action} {server : Server} {s' : Storage} {started : List Process}
      (hstep : ServiceStep settings s.toServer t a server t' started)
      (hkey : ∀ dpId, insertsFor s.toServer t a = some dpId → ProviderExists s.toServer dpId)
      (hstores : Stores { s with toServer := server } t s')
      (hproceed : a ≠ .proceed → s' = { s with toServer := server }) :
      SystemStep settings s (.service t) a s' (.service t') (started.map SystemProcess.service)
  | projectDelete {r : DeleteRequest} {a : Action} {s' : Storage} {phase : DeletePhase}
      {removes : Bool} (hstep : DeleteStep s r a s' phase removes) :
      SystemStep settings s (.projectDelete r) a s' (.projectDelete { r with phase := phase })
        (if removes then [.removeProject ⟨r.projectId, ⟨[], [], [], []⟩, .pending⟩] else [])
  | removeProject {t t' : RemoveProject} {a : Action} {s' : Storage}
      {started : List SystemProcess} (hstep : RemoveStep s t a s' t' started) :
      SystemStep settings s (.removeProject t) a s' (.removeProject t') started
  | deleteObjects {projectId : ProjectId} {filenames : List FileName} {a : Action}
      (names : List FileName) :
      SystemStep settings s (.deleteMinioObjects projectId filenames false) a
        (s.deleteMinioObjects names) (.deleteMinioObjects projectId filenames true) []

section Step
variable {settings : Settings} {s s' : Storage} {t t' : SystemProcess} {a : SystemAction}
  {started : List SystemProcess}

theorem serviceStep_eq_some {settings : Settings} {s s' : Storage} {t t' : Process}
    {a : SystemAction} {started : List Process}
    (h : serviceStep settings s t a = some (s', t', started)) : ∃ server,
      ServiceStep settings s.toServer t a.action server t' started ∧
      (∀ dpId, insertsFor s.toServer t a.action = some dpId → ProviderExists s.toServer dpId) ∧
      Stores { s with toServer := server } t s' ∧
      (a.action ≠ .proceed → s' = { s with toServer := server }) ∧
      (a.action = .proceed → store a.written { s with toServer := server } t = .ok s') := by
  unfold serviceStep at h
  simp only [Option.bind_eq_bind, Option.bind_eq_some_iff, Option.pure_def] at h
  obtain ⟨⟨server, t₁, started₁⟩, hservice, h⟩ := h
  split_ifs at h with hkey hproceed
  · obtain ⟨s₁, hstore, h⟩ := Option.bind_eq_some_iff.mp h
    cases h
    refine ⟨server, serviceStep_of_step hservice, ?_, stores_of_store (committed_eq_some.mp hstore),
      fun hne => absurd hproceed hne, fun _ => committed_eq_some.mp hstore⟩
    intro dpId hinserts
    rw [hinserts] at hkey
    exact of_decide_eq_true hkey
  · cases h
    refine ⟨server, serviceStep_of_step hservice, ?_, .nothing, fun _ => rfl,
      fun h => absurd h hproceed⟩
    intro dpId hinserts
    rw [hinserts] at hkey
    exact of_decide_eq_true hkey

theorem systemStep_of_step (h : system settings s t a = some (s', t', started)) :
    SystemStep settings s t a.action s' t' started := by
  unfold system at h
  split at h
  case h_1 t₁ =>
    simp only [Option.bind_eq_bind, Option.bind_eq_some_iff, Option.pure_def] at h
    obtain ⟨⟨s₁, t₂, started₁⟩, hstep, h⟩ := h
    cases h
    obtain ⟨server, hstep, hkey, hstores, hproceed, -⟩ := serviceStep_eq_some hstep
    exact .service hstep hkey hstores hproceed
  case h_2 r =>
    simp only [Option.bind_eq_bind, Option.bind_eq_some_iff, Option.pure_def] at h
    obtain ⟨⟨s₁, phase, removes⟩, hstep, h⟩ := h
    cases h
    exact .projectDelete (deleteStep_of_step hstep)
  case h_3 t₁ =>
    simp only [Option.bind_eq_bind, Option.bind_eq_some_iff, Option.pure_def] at h
    obtain ⟨⟨s₁, t₂, started₁⟩, hstep, h⟩ := h
    cases h
    exact .removeProject (removeStep_of_step hstep)
  case h_4 projectId filenames =>
    split at h
    · cases h
      exact .deleteObjects filenames
    · cases h
      exact .deleteObjects []
    · cases h
  case h_5 => cases h

theorem started_ne_projectDelete (hstep : SystemStep settings s t a.action s' t' started)
    (r : DeleteRequest) : .projectDelete r ∉ started := by
  intro hr
  generalize a.action = action at hstep
  cases hstep with
  | service => simp at hr
  | projectDelete =>
    split_ifs at hr
    · cases List.mem_singleton.mp hr
    · cases hr
  | removeProject hstep =>
    cases hstep with
    | finish => cases List.mem_singleton.mp hr
    | _ => cases hr
  | deleteObjects => cases hr

end Step
end EntityService.Tasks.ProjectCleanup
