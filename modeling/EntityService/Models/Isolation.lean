import EntityService.Models.Deleted
import EntityService.Models.SameAnswers
import EntityService.Models.Scope
import EntityService.Service.Termination
import EntityService.Tasks.RowsRemoved

/-! Projects are isolated from each other. In whatever order requests, tasks and deletions of other
projects take their steps, they change no row of a project of which nothing is under way. The
objects in the bucket are not rows, and are left out here. -/
namespace EntityService.Models
open Lib Service Views Tasks.ProjectCleanup Database

section Stores
variable {projectId : ProjectId} {s s' : Storage}

theorem dpId_of_uploadRows {w : Written} {t : Process} {rows : UploadRows}
    (h : uploadRows w t = some rows) : rows.dpId ∈ t.scope.providers := by
  cases t with
  | request r =>
    unfold uploadRows at h
    dsimp only at h
    split at h
    case h_4 => cases h
    all_goals
      cases h
      exact List.mem_singleton_self _
  | uploadTask t =>
    unfold uploadRows at h
    dsimp only at h
    split at h
    case h_4 => cases h
    all_goals
      cases h
      exact List.mem_singleton_self _
  | _ => cases h

theorem unaffected_insertUploadRows {rows : UploadRows}
    (hinsert : insertUploadRows s rows = .ok s') (hother : ¬ s.db.Owns projectId rows.dpId) :
    s.Unaffected projectId s' := by
  obtain ⟨_, -, hinsert⟩ := bind_eq_ok.mp hinsert
  cases hinsert
  have hrows : ∀ {α : Type} {dp : α → DpId} {f : α → α} {l l' : List α} {dpId : DpId},
      (∀ r, dp (f r) = rows.dpId) → s.db.Owns projectId dpId →
        (l ++ l'.map f).filter (fun r => dp r = dpId) = l.filter fun r => dp r = dpId := by
    intro α dp f l l' dpId hf howns
    apply filter_append_of_not
    intro r hr
    obtain ⟨r', -, rfl⟩ := List.mem_map.mp hr
    apply decide_eq_false
    rw [hf]
    rintro rfl
    exact hother howns
  apply Storage.Unaffected.of_server
  apply Server.Unaffected.of_db
  exact ⟨rfl, rfl, fun _ => rfl, hrows fun _ => rfl, hrows fun _ => rfl, hrows fun _ => rfl⟩

theorem unaffected_stores {t : Process} (hstores : Stores s t s')
    (hscope : t.scope.Outside projectId s.toServer) : s.Unaffected projectId s' := by
  have hne : ∀ {r runId : RunId}, r ∈ t.scope.runs → s.RunOf projectId runId → r ≠ runId := by
    rintro r runId hr ⟨row, hrow, hproject⟩ rfl
    exact hscope.runs r hr row hrow hproject
  cases hstores with
  | scores filename scores =>
    refine ⟨.refl projectId s.toServer, rfl, fun _ => rfl, ?_, fun _ _ => rfl, fun _ => rfl⟩
    intro runId hrun
    apply filter_append_of_not
    intro r hr
    rw [List.mem_singleton.mp hr]
    exact decide_eq_false (hne (List.mem_singleton_self _) hrun)
  | groups groups =>
    refine ⟨.refl projectId s.toServer, rfl, ?_, fun _ => rfl, fun _ _ => rfl, fun _ => rfl⟩
    intro runId hrun
    apply filter_append_of_not
    intro r hr
    rw [List.mem_singleton.mp hr]
    exact decide_eq_false (hne (List.mem_singleton_self _) hrun)
  | permutations rows mask hrow hrows =>
    refine ⟨.refl projectId s.toServer, rfl, fun _ => rfl, fun _ => rfl, ?_, ?_⟩
    · intro runId dpId hrun _
      apply filter_append_of_not
      intro r hr
      apply decide_eq_false
      rintro ⟨-, hid⟩
      exact hne (List.mem_singleton_self _) hrun ((hrows r hr).1.symm.trans hid)
    · intro runId hrun
      apply filter_append_of_not
      intro r hr
      rw [List.mem_singleton.mp hr]
      apply decide_eq_false
      rintro ⟨-, hid⟩
      exact hne (List.mem_singleton_self _) hrun hid
  | upload hrows hinsert =>
    exact unaffected_insertUploadRows hinsert (hscope.providers _ (dpId_of_uploadRows hrows))
  | nothing => exact .refl projectId s

end Stores

/-- What a deletion names: its project, and what it has found of it. -/
def RemoveProject.scope (t : RemoveProject) : Scope where
  projects := t.projectId :: t.deleted.permutationMasks.map PermutationMaskRow.project
  providers := t.deleted.dpIds
  runs := (match t.phase with | .settingStates todo => todo | _ => []) ++
    (t.deleted.runResults.map RunResultRow.runId ++ t.deleted.permutations.map PermutationRow.run)
  tokens := []

def DeployedProcess.scope : DeployedProcess → Scope
  | .system (.service t) => t.scope
  | .system (.projectDelete r) => ⟨[r.projectId], [], [], []⟩
  | .system (.removeProject t) => RemoveProject.scope t
  | .system (.deleteMinioObjects _ _ _) => ⟨[], [], [], []⟩
  -- a run of another project is not found
  | .runDelete r => ⟨[r.projectId], [], match r.phase with
    | .received | .refused | .failed => []
    | _ => [r.runId], []⟩

section Step
variable {settings : Settings} {projectId : ProjectId} {s s' : Storage}

theorem unaffected_commitDeleted {t : RemoveProject}
    (hscope : (RemoveProject.scope t).Outside projectId s.toServer) :
    s.Unaffected projectId (s.commitDeleted t.deleted) := by
  have hne : ∀ {r runId : RunId}, r ∈ t.deleted.runResults.map RunResultRow.runId ++
      t.deleted.permutations.map PermutationRow.run → s.RunOf projectId runId → r ≠ runId := by
    rintro r runId hr ⟨row, hrow, hproject⟩ rfl
    exact hscope.runs r (List.mem_append_right _ hr) row hrow hproject
  refine ⟨.of_db (unaffected_deleteDataproviders hscope.providers), rfl, ?_, fun _ => rfl, ?_, ?_⟩
  · intro runId hrun
    apply filter_diff_of_not
    intro r hr
    exact decide_eq_false (hne (List.mem_append_left _ (List.mem_map_of_mem hr)) hrun)
  · intro runId dpId hrun howns
    show ((s.permutations.diff t.deleted.permutations).filter _).filter _ = _
    rw [filter_filter_of_imp, filter_diff_of_not]
    · intro r hr
      apply decide_eq_false
      rintro ⟨-, hid⟩
      exact hne (List.mem_append_right _ (List.mem_map_of_mem hr)) hrun hid
    · intro r _ hr
      rw [decide_eq_true_eq] at hr ⊢
      intro hmem
      exact hscope.providers r.dp hmem (hr.1 ▸ howns)
  · intro runId _
    apply filter_diff_of_not
    intro r hr
    apply decide_eq_false
    rintro ⟨hid, -⟩
    exact hscope.projects (List.mem_cons_of_mem _ (hid ▸ List.mem_map_of_mem hr))

theorem unaffected_systemStep {t t' : SystemProcess} {a : Service.Action}
    {started : List SystemProcess} (h : SystemStep settings s t a s' t' started)
    (hscope : (DeployedProcess.system t).scope.Outside projectId s.toServer) :
    s.Unaffected projectId s' := by
  cases h with
  | service hservice _ hstores =>
    have hserver := unaffected_serviceStep hservice hscope
    exact (Storage.Unaffected.of_server hserver).trans
      (unaffected_stores hstores (hscope.unaffected hserver))
  | @projectDelete r _ _ _ _ hdelete =>
    have hother : r.projectId ≠ projectId := by
      intro hid
      exact hscope.projects (by simp [DeployedProcess.scope, hid])
    cases hdelete with
    | mark =>
      apply Storage.Unaffected.of_server
      apply Server.Unaffected.of_db
      exact unaffected_projects hother _ fun _ => rfl
    | _ => exact .refl projectId s
  | removeProject hremove =>
    cases hremove with
    | setState hphase =>
      apply Storage.Unaffected.of_server
      apply unaffected_setHash
      apply hscope.runs
      simp [DeployedProcess.scope, RemoveProject.scope, hphase]
    | commit => exact unaffected_commitDeleted hscope
    | _ => exact .refl projectId s
  | deleteObjects =>
    exact ⟨.refl projectId s.toServer, rfl, fun _ => rfl, fun _ => rfl, fun _ _ => rfl,
      fun _ => rfl⟩

/-- A step changes nothing of a project that its process does not name. -/
theorem unaffected_deployedStep {t t' : DeployedProcess} {started : List DeployedProcess}
    (h : DeployedStep settings s t s' t' started)
    (hscope : t.scope.Outside projectId s.toServer) : s.Unaffected projectId s' := by
  cases h with
  | system hsystem => exact unaffected_systemStep (systemStep_of_step hsystem) hscope
  | @runDelete r _ _ _ hdelete =>
    have hruns := hscope.runs
    simp only [DeployedProcess.scope] at hruns
    cases hdelete with
    | setState hphase =>
      apply Storage.Unaffected.of_server
      apply unaffected_setHash
      apply hruns
      simp [hphase]
    | delete hphase =>
      apply unaffected_deleteRunData
      rintro ⟨row, hrow, hproject⟩
      exact hruns r.runId (by simp [hphase]) row hrow hproject
    | _ => exact .refl projectId s

theorem unaffected_posted {codes : Codes} {data : Option NewProject} {r r' : Registry}
    {result : Except Error NewProjectResponse} (h : Posted codes data r r' result)
    (hother : codes.projectId ≠ projectId) : r.toStorage.Unaffected projectId r'.toStorage := by
  cases h with
  | @created p hjson =>
    obtain ⟨-, -, -, hid, -⟩ := fromJson_eq_ok hjson
    have hne : p.projectId ≠ projectId := by rwa [hid]
    refine ⟨⟨⟨?_, ?_, fun _ => rfl, fun _ => rfl, fun _ => rfl, fun _ => rfl⟩, rfl, fun _ _ => rfl⟩,
      ?_, fun _ => rfl, fun _ => rfl, fun _ _ => rfl, fun _ => rfl⟩
    · apply filter_append_of_not
      intro row hrow
      rw [List.mem_singleton.mp hrow]
      exact decide_eq_false hne
    · apply filter_append_of_not
      intro d hd
      apply decide_eq_false
      rwa [(of_mem_providerRows _ _ _ hd).1]
    · exact Dict.get?_set_of_ne _ _ hne.symm
  | denied => exact .refl projectId r.toStorage
  | failed => exact .refl projectId r.toStorage

end Step

section Started
variable {settings : Settings} {s s' : Storage}

theorem grows_removeProject {t t' : RemoveProject} {a : Service.Action}
    {started : List SystemProcess} (h : t.step s a = some (s', t', started)) :
    (RemoveProject.scope t).Grows (RemoveProject.scope t') s.toServer := by
  have hfound : ∀ {runId : RunId}, s.RunOf t.projectId runId →
      ∃ row, s.runs.get? runId = some row ∧ row.project ∈ (RemoveProject.scope t).projects := by
    rintro runId ⟨row, hrow, hid⟩
    exact ⟨row, hrow, hid ▸ List.mem_cons_self⟩
  have hphases : ∀ {phase : RemovePhase}, (∀ todo, phase ≠ .settingStates todo) →
      (RemoveProject.scope t).Grows (RemoveProject.scope { t with phase := phase })
        s.toServer := by
    intro phase hphase
    refine .of_subset (List.Subset.refl _) (List.Subset.refl _) ?_ (List.Subset.refl _)
    intro runId hrun
    simp only [RemoveProject.scope, List.mem_append] at hrun ⊢
    rcases hrun with hrun | hrun
    · cases hrun
    · exact .inr hrun
  have hstep := removeStep_of_step h
  cases hstep with
  | begin hphase todo =>
    have htodo : s.findRuns t.projectId (fun _ => true) = todo := by
      simpa [RemoveProject.step, RemoveProject.proceed, hphase] using h
    refine ⟨List.Subset.refl _, fun _ hdp => .inl hdp, fun runId hrun => ?_, List.Subset.refl _⟩
    simp only [RemoveProject.scope, List.mem_append] at hrun
    rcases hrun with hrun | hrun
    · rw [← htodo] at hrun
      obtain ⟨row, hrow, hid, -⟩ := mem_findRuns.mp hrun
      exact .inr (hfound ⟨row, hrow, hid⟩)
    · left
      simp only [RemoveProject.scope, List.mem_append]
      exact .inr hrun
  | setState hphase =>
    refine .of_subset (List.Subset.refl _) (List.Subset.refl _) ?_ (List.Subset.refl _)
    intro runId hrun
    simp only [RemoveProject.scope, hphase, List.mem_append, List.mem_cons] at hrun ⊢
    tauto
  | gather hphase =>
    refine ⟨List.Subset.refl _, fun dpId hdp => .inr ?_, fun runId hrun => .inl ?_,
      List.Subset.refl _⟩
    · have hmem := (List.mem_insertionSort _).mp hdp
      obtain ⟨d, hd, rfl⟩ := List.mem_map.mp hmem
      obtain ⟨hd, hid⟩ := List.mem_filter.mp hd
      exact ⟨t.projectId, List.mem_cons_self, d,
        List.mem_filter.mpr ⟨hd, decide_eq_true (of_decide_eq_true hid).1⟩, rfl⟩
    · simp only [RemoveProject.scope, hphase, List.nil_append] at hrun ⊢
      exact hrun
  | deleteResults hphase =>
    refine ⟨List.Subset.refl _, fun _ hdp => .inl hdp, fun runId hrun => ?_, List.Subset.refl _⟩
    simp only [RemoveProject.scope, List.nil_append, List.mem_append] at hrun
    rcases hrun with hrun | hrun
    · obtain ⟨r, hr, rfl⟩ := List.mem_map.mp hrun
      exact .inr (hfound (of_decide_eq_true (List.mem_filter.mp hr).2))
    · left
      simp only [RemoveProject.scope, hphase, List.nil_append, List.mem_append]
      exact .inr hrun
  | deletePermutations hphase =>
    refine ⟨List.Subset.refl _, fun _ hdp => .inl hdp, fun runId hrun => ?_, List.Subset.refl _⟩
    simp only [RemoveProject.scope, List.nil_append, List.mem_append] at hrun
    rcases hrun with hrun | hrun
    · left
      simp only [RemoveProject.scope, hphase, List.nil_append, List.mem_append]
      exact .inl hrun
    · obtain ⟨r, hr, rfl⟩ := List.mem_map.mp hrun
      exact .inr (hfound (of_decide_eq_true (List.mem_filter.mp hr).2))
  | deleteMasks hphase =>
    refine .of_subset ?_ (List.Subset.refl _) ?_ (List.Subset.refl _)
    · intro q hq
      rcases List.mem_cons.mp hq with rfl | hq
      · exact List.mem_cons_self
      · obtain ⟨r, hr, rfl⟩ := List.mem_map.mp hq
        rw [of_decide_eq_true (List.mem_filter.mp hr).2]
        exact List.mem_cons_self
    · intro runId hrun
      simp only [RemoveProject.scope, hphase, List.nil_append] at hrun ⊢
      exact hrun
  | commit | gatherObjects | finish | fail => exact hphases fun _ => nofun

theorem grows_systemProcess {t t' : SystemProcess} {a : SystemAction}
    {started : List SystemProcess}
    (h : Tasks.ProjectCleanup.system settings s t a = some (s', t', started)) :
    ∀ u ∈ t' :: started, (DeployedProcess.system t).scope.Grows
      (DeployedProcess.system u).scope s.toServer := by
  intro u hu
  have hstep := systemStep_of_step h
  cases t with
  | service t =>
    generalize a.action = action at hstep
    cases hstep with
    | service hservice =>
      have hnext := grows_serviceStep hservice
      rcases List.mem_cons.mp hu with rfl | hu
      · exact hnext _ List.mem_cons_self
      · obtain ⟨v, hv, rfl⟩ := List.mem_map.mp hu
        exact hnext v (List.mem_cons_of_mem _ hv)
  | projectDelete r =>
    generalize a.action = action at hstep
    cases hstep with
    | projectDelete =>
      rcases List.mem_cons.mp hu with rfl | hu
      · exact .refl _ s.toServer
      · split_ifs at hu
        · rw [List.mem_singleton.mp hu]
          exact .of_project (List.mem_singleton_self _)
        · cases hu
  | removeProject t =>
    simp only [Tasks.ProjectCleanup.system, Option.bind_eq_bind, Option.bind_eq_some_iff,
      Option.pure_def] at h
    obtain ⟨⟨s₁, t₁, started₁⟩, ht, h⟩ := h
    cases h
    rcases List.mem_cons.mp hu with rfl | hu
    · exact grows_removeProject ht
    · have hremove := removeStep_of_step ht
      generalize a.action = action at hremove
      cases hremove with
      | finish =>
        rw [List.mem_singleton.mp hu]
        exact .of_subset (List.nil_subset _) (List.nil_subset _) (List.nil_subset _)
          (List.nil_subset _)
      | _ => cases hu
  | deleteMinioObjects =>
    generalize a.action = action at hstep
    cases hstep with
    | deleteObjects =>
      rw [List.mem_singleton.mp hu]
      exact .refl _ s.toServer

theorem grows_deployedStep {t t' : DeployedProcess} {started : List DeployedProcess}
    (h : DeployedStep settings s t s' t' started) :
    ∀ u ∈ t' :: started, t.scope.Grows u.scope s.toServer := by
  intro u hu
  cases h with
  | system hsystem =>
    have hnext := grows_systemProcess hsystem
    rcases List.mem_cons.mp hu with rfl | hu
    · exact hnext _ List.mem_cons_self
    · obtain ⟨v, hv, rfl⟩ := List.mem_map.mp hu
      exact hnext v (List.mem_cons_of_mem _ hv)
  | @runDelete r _ phase files hdelete =>
    rcases List.mem_cons.mp hu with rfl | hu
    · refine ⟨List.Subset.refl _, fun _ hdp => .inl hdp, ?_, List.Subset.refl _⟩
      simp only [DeployedProcess.scope]
      cases hdelete with
      | check hphase hexists hnext =>
        rcases hnext with rfl | rfl
        · intro runId hrun
          obtain rfl := List.mem_singleton.mp hrun
          obtain ⟨row, hrow, hid⟩ := runOf_of_isOk (hexists rfl)
          exact .inr ⟨row, hrow, List.mem_singleton.mpr hid⟩
        · intro runId hrun
          cases hrun
      | authorize hphase hnext =>
        rcases hnext with rfl | rfl
        · intro runId hrun
          left
          simpa [hphase] using hrun
        · intro runId hrun
          cases hrun
      | again hphase =>
        intro runId hrun
        left
        rcases hphase with hphase | ⟨file, hphase⟩
        · simpa [hphase] using hrun
        · simpa [hphase] using hrun
      | fail =>
        intro runId hrun
        cases hrun
      | setState hphase | find hphase | delete hphase | answer hphase =>
        intro runId hrun
        left
        simpa [hphase] using hrun
    · obtain ⟨files, -, rfl⟩ := Option.map_eq_some_iff.mp (Option.mem_toList.mp hu)
      exact .of_subset (List.nil_subset _) (List.nil_subset _) (List.nil_subset _)
        (List.nil_subset _)

theorem outside_deployedStep {projectId : ProjectId} (hkeys : s.db.UniqueProviders)
    {t t' : DeployedProcess} {started : List DeployedProcess}
    (h : DeployedStep settings s t s' t' started) (hscope : t.scope.Outside projectId s.toServer) :
    ∀ u ∈ t' :: started, u.scope.Outside projectId s.toServer :=
  fun u hu => (grows_deployedStep h u hu).outside hkeys hscope

end Started

/-- The request has been answered, or the task has returned or failed. -/
def DeployedProcess.Ended : DeployedProcess → Bool
  | .system t => t.Ended
  | .runDelete r => r.phase = .answered ∨ r.phase = .refused ∨ r.phase = .failed

/-- Nothing of the project is under way. -/
def Quiet (projectId : ProjectId) (d : Deployment) : Prop :=
  ∀ t ∈ d.pool.processes, t.Ended = false → t.scope.Outside projectId d.pool.shared.toServer

/-- A step in which no project with the id is created and no request names the project. -/
inductive Deployment.StepElsewhere (settings : Settings) (projectId : ProjectId)
    (d : Deployment) : Deployment → Prop
  | create {codes : Codes} {data : Option NewProject} {r : Registry}
      {result : Except Error NewProjectResponse} (hid : codes.projectId ≠ projectId)
      (h : projectsPost codes data d.registry = (r, result)) :
      StepElsewhere settings projectId d ⟨⟨r.toStorage, d.pool.processes⟩, r.nextDpId,
        d.created ++ (createdBy data result).toList⟩
  | arrive {t : DeployedProcess} (h : Arriving t)
      (hscope : t.scope.Outside projectId d.pool.shared.toServer) :
      StepElsewhere settings projectId d
        ⟨⟨d.pool.shared, d.pool.processes ++ [t]⟩, d.nextDpId, d.created⟩
  | run {i : ℕ} {a : DeployedAction} {pool : Pool Storage DeployedProcess}
      (h : d.pool.step (deployed settings) i a = some pool) :
      StepElsewhere settings projectId d ⟨pool, d.nextDpId, d.created⟩

section Run
variable {settings : Settings} {projectId : ProjectId} {d d' : Deployment}

theorem Deployment.StepElsewhere.step (h : d.StepElsewhere settings projectId d') :
    Deployment.Step settings d d' := by
  cases h with
  | create _ hpost => exact .create hpost
  | arrive harriving => exact .arrive harriving
  | run hrun => exact .run hrun

theorem system_of_ended {s : Storage} {t : SystemProcess} (h : t.Ended = true) (a : SystemAction) :
    Tasks.ProjectCleanup.system settings s t a = none := by
  cases t with
  | service t =>
    have hnone : service settings s.toServer t a.action = none := service_of_ended h _ a.action
    simp [Tasks.ProjectCleanup.system, serviceStep, hnone]
  | projectDelete r =>
    have hphase : r.phase = .accepted ∨ r.phase = .refused := of_decide_eq_true h
    have hnone : r.step s a.action = none := by
      rcases hphase with hphase | hphase
      · cases a.action <;> simp [DeleteRequest.step, hphase]
      · cases a.action <;> simp [DeleteRequest.step, hphase]
    simp [Tasks.ProjectCleanup.system, hnone]
  | removeProject t =>
    have hphase : t.phase = .ended ∨ t.phase = .failed := of_decide_eq_true h
    have hnone : t.step s a.action = none := by
      rcases hphase with hphase | hphase
      · cases a.action <;> simp [RemoveProject.step, RemoveProject.proceed, hphase]
      · cases a.action <;> simp [RemoveProject.step, RemoveProject.proceed, hphase]
    simp [Tasks.ProjectCleanup.system, hnone]
  | deleteMinioObjects projectId filenames ended =>
    obtain rfl : ended = true := h
    rfl

theorem deployed_of_ended {s : Storage} {t : DeployedProcess} (h : t.Ended = true)
    (a : DeployedAction) : deployed settings s t a = none := by
  cases t with
  | system t =>
    cases a with
    | system a => simp [deployed, system_of_ended h]
    | runDelete => rfl
  | runDelete r =>
    cases a with
    | system => rfl
    | runDelete a =>
      have hphase : r.phase = .answered ∨ r.phase = .refused ∨ r.phase = .failed :=
        of_decide_eq_true h
      have hnone : r.step s a = none := by
        rcases hphase with hphase | hphase | hphase
        all_goals cases a <;> simp [RunDelete.step, RunDelete.proceed, hphase]
      simp [deployed, hnone]

theorem Recorded.uniqueProviders {r : Registry} {created : List Created}
    (h : Recorded r created) : r.db.UniqueProviders := by
  have hids := h.ids
  unfold Database.providerColumns at hids
  rw [List.map_map] at hids
  exact hids

theorem Quiet.unaffected (h : Quiet projectId d) {s' : Storage}
    (hsame : d.pool.shared.Unaffected projectId s') :
    ∀ t ∈ d.pool.processes, t.Ended = false → t.scope.Outside projectId s'.toServer :=
  fun t ht hended => (h t ht hended).unaffected hsame.server

theorem Quiet.step (h : Quiet projectId d) (hrecorded : Recorded d.registry d.created)
    (hstep : d.StepElsewhere settings projectId d') :
    Quiet projectId d' ∧ d.pool.shared.Unaffected projectId d'.pool.shared := by
  cases hstep with
  | @create codes data r result hid hpost =>
    have hposted := hrecorded.postedOf codes data
    rw [hpost] at hposted
    have hsame : d.pool.shared.Unaffected projectId r.toStorage := unaffected_posted hposted hid
    exact ⟨h.unaffected hsame, hsame⟩
  | arrive _ hscope =>
    refine ⟨?_, .refl projectId _⟩
    intro t ht hended
    rcases List.mem_append.mp ht with ht | ht
    · exact h t ht hended
    · rw [List.mem_singleton.mp ht]
      exact hscope
  | run hrun =>
    obtain ⟨before, t, after, s', t', started, hlist, -, hprogram, rfl⟩ :=
      Pool.step_eq_some.mp hrun
    have ht : t ∈ d.pool.processes := by
      rw [hlist]
      exact List.mem_append_right _ List.mem_cons_self
    have hrunning : t.Ended = false := by
      by_contra hended
      rw [Bool.not_eq_false] at hended
      rw [deployed_of_ended hended] at hprogram
      cases hprogram
    have hdeployed := deployedStep_of_step hprogram
    have hscope := h t ht hrunning
    have hsame := unaffected_deployedStep hdeployed hscope
    have hnext := outside_deployedStep hrecorded.uniqueProviders hdeployed hscope
    have hold := h.unaffected hsame
    refine ⟨?_, hsame⟩
    intro u hu hended
    rw [hlist] at hold
    simp only [List.mem_append, List.mem_cons] at hu hold
    rcases hu with (hu | rfl | hu) | hu
    · exact hold u (.inl hu) hended
    · exact (hnext _ List.mem_cons_self).unaffected hsame.server
    · exact hold u (.inr (.inr hu)) hended
    · exact (hnext u (List.mem_cons_of_mem _ hu)).unaffected hsame.server

theorem quiet_of_elsewhere (h : Deployment.Reaches settings .new d) (hquiet : Quiet projectId d)
    (h' : Relation.ReflTransGen (Deployment.StepElsewhere settings projectId) d d') :
    Quiet projectId d' ∧ d.pool.shared.Unaffected projectId d'.pool.shared := by
  have hrun : Deployment.Reaches settings .new d' ∧ Quiet projectId d' ∧
      d.pool.shared.Unaffected projectId d'.pool.shared := by
    induction h' with
    | refl => exact ⟨h, hquiet, .refl projectId _⟩
    | tail _ hstep ih =>
      obtain ⟨hreaches, hquiet, hsame⟩ := ih
      obtain ⟨hnext, hstepSame⟩ := hquiet.step (sound_of_reaches hreaches).recorded hstep
      exact ⟨hreaches.tail hstep.step, hnext, hsame.trans hstepSame⟩
  exact hrun.2

end Run

section Isolated
variable {settings : Settings} {projectId : ProjectId} {d d' : Deployment}

/-- While nothing of a project is under way and no request names it, no row of it changes and its
clients get the same answers, whatever is created, uploaded, run and deleted elsewhere. -/
theorem isolated_of_elsewhere (h : Deployment.Reaches settings .new d)
    (hquiet : Quiet projectId d)
    (h' : Relation.ReflTransGen (Deployment.StepElsewhere settings projectId) d d') :
    d.pool.shared.Unaffected projectId d'.pool.shared ∧
      SameAnswers projectId d.pool.shared d'.pool.shared := by
  have hsame := (quiet_of_elsewhere h hquiet h').2
  exact ⟨hsame, sameAnswers_of_unaffected hsame⟩

theorem elsewhere_of_run {schedule : List (ℕ × DeployedAction)}
    {pool : Pool Storage DeployedProcess}
    (h : d.pool.run (deployed settings) schedule = some pool) :
    Relation.ReflTransGen (Deployment.StepElsewhere settings projectId) d
      ⟨pool, d.nextDpId, d.created⟩ := by
  induction schedule generalizing d with
  | nil =>
    obtain rfl := Option.some.inj h
    exact .refl
  | cons e schedule ih =>
    obtain ⟨pool', hstep, hrun⟩ := Option.bind_eq_some_iff.mp h
    exact .head (.run hstep) (ih (d := ⟨pool', d.nextDpId, d.created⟩) hrun)

def Deployment.deleteOther (d : Deployment) : Deployment :=
  let d := d.create (lettered 'q') permutationsDocument
  ⟨⟨d.pool.shared, d.pool.processes ++ [.system (.projectDelete ⟨"q", some "qr", .received⟩)]⟩,
    d.nextDpId, d.created⟩

/-- A project, next to which another one is created and deleted. -/
theorem isolated_deleteOther : ∃ pool,
    (Deployment.new.create (lettered 'p') permutationsDocument).deleteOther.pool.run
        (deployed Tasks.defaultSettings) (systemAll ([0, 0, 0, 0] ++ List.replicate 8 1)) =
      some pool ∧
    SameAnswers "p" (Deployment.new.create (lettered 'p') permutationsDocument).pool.shared
      pool.shared := by
  have hrun : ((Deployment.new.create (lettered 'p')
      permutationsDocument).deleteOther.pool.run (deployed Tasks.defaultSettings)
        (systemAll ([0, 0, 0, 0] ++ List.replicate 8 1))).isSome := by decide
  obtain ⟨pool, hpool⟩ := Option.isSome_iff_exists.mp hrun
  have hquiet : Quiet "p" (Deployment.new.create (lettered 'p') permutationsDocument) :=
    fun t ht => absurd ht List.not_mem_nil
  have hcreate : Deployment.StepElsewhere Tasks.defaultSettings "p"
      (Deployment.new.create (lettered 'p') permutationsDocument)
      ((Deployment.new.create (lettered 'p') permutationsDocument).create (lettered 'q')
        permutationsDocument) := .create (show (lettered 'q').projectId ≠ "p" by decide) rfl
  have harrive : Deployment.StepElsewhere Tasks.defaultSettings "p"
      ((Deployment.new.create (lettered 'p') permutationsDocument).create (lettered 'q')
        permutationsDocument)
      (Deployment.new.create (lettered 'p') permutationsDocument).deleteOther :=
    .arrive rfl (Scope.outside_projects (by decide))
  have helsewhere := (Relation.ReflTransGen.single hcreate).tail harrive
  exact ⟨pool, hpool, (isolated_of_elsewhere (reaches_create .refl (lettered 'p')
    permutationsDocument) hquiet (helsewhere.trans (elsewhere_of_run hpool))).2⟩

end Isolated
end EntityService.Models
