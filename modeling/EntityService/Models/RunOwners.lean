import EntityService.Models.DeletedRuns
import EntityService.Models.Isolation

/-! The project of a run is that of the request that has inserted the run. Whatever else names the
run and a project names the same project. -/
namespace EntityService.Models
open Lib Service Tasks.ProjectCleanup

def toldProject : RunTask → Option ProjectId
  | .prerunCheck projectId _ _ | .createComparisonJobs projectId _ _ => some projectId
  | .chord projectId _ _ | .aggregateComparisons projectId _ _ _ => some projectId
  | .solverTask projectId _ _ | .saveAndPermute projectId _ _ => some projectId
  | .permuteMappingData _ _ | .markRunComplete _ _ | .runFailedHandler _ _ => none

/-- The project of the runs that a process names. -/
def DeployedProcess.project : DeployedProcess → Option ProjectId
  | .system (.service (.check c)) => some c.projectId
  | .system (.service (.runTask t)) => toldProject t
  | .system (.removeProject t) => some t.projectId
  | .runDelete r => some r.projectId
  | _ => none

/-- A request to insert the run into the project has come to doing so. -/
def PostedFor (runId : RunId) (projectId : ProjectId) (pool : Pool Storage DeployedProcess) :
    Prop :=
  ∃ p : Post, .system (.service (.post p)) ∈ pool.processes ∧ p.runId = runId ∧
    p.projectId = projectId ∧ p.phase ≠ .pending

/-- Every run, and what names one, is of the project of its request. -/
structure Attributed (pool : Pool Storage DeployedProcess) : Prop where
  projects : ∀ {runId row}, pool.shared.runs.get? runId = some row →
    row.project ∈ pool.shared.db.projects.map ProjectRow.projectId
  rows : ∀ {runId row}, pool.shared.runs.get? runId = some row → PostedFor runId row.project pool
  named : ∀ t ∈ pool.processes, ∀ runId ∈ t.scope.runs,
    ∃ projectId, PostedFor runId projectId pool ∧ ∀ q ∈ t.project, q = projectId
  masks : ∀ t : RemoveProject, .system (.removeProject t) ∈ pool.processes →
    ∀ r ∈ t.deleted.permutationMasks, r.project = t.projectId

section PostedFor
variable {settings : Settings} {pool : Pool Storage DeployedProcess} {runId : RunId}
  {projectId q : ProjectId}

theorem PostedFor.drawn (h : PostedFor runId projectId pool) : Drawn runId pool := by
  obtain ⟨p, hp, hid, -, hphase⟩ := h
  apply drawn_of_mem hp
  simp [pendingPosts, posts, hid, hphase]

theorem PostedFor.unique (h : PostedFor runId projectId pool) (h' : PostedFor runId q pool)
    (hone : pool.total (posts runId) ≤ 1) : projectId = q := by
  obtain ⟨p, hp, hid, rfl, -⟩ := h
  obtain ⟨p', hp', hid', rfl, -⟩ := h'
  obtain ⟨before, after, hlist⟩ := List.append_of_mem hp
  rw [hlist] at hp'
  by_cases hsame : p' = p
  · rw [hsame]
  · have hmem : DeployedProcess.system (.service (.post p')) ∈ before ++ after := by
      simp only [List.mem_append, List.mem_cons] at hp' ⊢
      rcases hp' with hp' | hp' | hp'
      · exact .inl hp'
      · cases hp'
        exact absurd rfl hsame
      · exact .inr hp'
    have htwo := Pool.add_le_total (f := posts runId) (s := pool.shared)
      (t := .system (.service (.post p))) hmem
    have hpool : pool = ⟨pool.shared, before ++ .system (.service (.post p)) :: after⟩ := by
      rw [← hlist]
    rw [← hpool] at htwo
    simp only [posts, hid, hid', if_true] at htwo
    omega

variable {s s' : Storage} {t t' : DeployedProcess} {before after started : List DeployedProcess}

/-- A request that has come to inserting its run stays one that has. -/
theorem post_step {p : Post} (hstep : DeployedStep settings s (.system (.service (.post p))) s' t'
    started) : ∃ phase, t' = .system (.service (.post { p with phase := phase })) ∧
      (p.phase ≠ .pending → phase ≠ .pending) := by
  cases hstep with
  | system hsystem =>
    have hsystem := systemStep_of_step hsystem
    generalize SystemAction.action _ = action at hsystem
    cases hsystem with
    | service hservice =>
      cases hservice with
      | post hpost =>
        refine ⟨_, rfl, fun _ => ?_⟩
        cases hpost <;> simp

theorem PostedFor.step (h : PostedFor runId projectId ⟨s, before ++ t :: after⟩)
    (hstep : DeployedStep settings s t s' t' started) :
    PostedFor runId projectId ⟨s', before ++ t' :: after ++ started⟩ := by
  obtain ⟨p, hp, hid, hproject, hphase⟩ := h
  simp only [List.mem_append, List.mem_cons] at hp
  rcases hp with hp | rfl | hp
  · exact ⟨p, by simp [hp], hid, hproject, hphase⟩
  · obtain ⟨phase, rfl, hnext⟩ := post_step hstep
    exact ⟨{ p with phase := phase }, by simp, hid, hproject, hnext hphase⟩
  · exact ⟨p, by simp [hp], hid, hproject, hphase⟩

end PostedFor

section Rows
variable {settings : Settings} {runId : RunId} {row' : RunRow}

/-- Where the row of a run comes from. A run becomes complete by the task that marks it. -/
inductive FromRow (runId : RunId) (s : Storage) (t t' : DeployedProcess) (row' : RunRow) : Prop
  | kept {row : RunRow} (hrow : s.runs.get? runId = some row)
      (hproject : row'.project = row.project)
      (hcompleted : row'.state = .completed → row.state = .completed ∨
        t = .system (.service (.runTask (.markRunComplete runId .pending))))
  | inserted {p : Post} (hnone : s.runs.get? runId = none) (hcreated : row'.state = .created)
      (hexists : row'.project ∈ s.db.projects.map ProjectRow.projectId)
      (ht : t = .system (.service (.post p))) (hid : p.runId = runId)
      (hproject : p.projectId = row'.project) (hphase : p.phase = .pending)
      (ht' : t' = .system (.service (.post { p with phase := .committed () })))

theorem fromRow_serviceStep {s : Storage} {server : Server} {t t' : Process} {a : Service.Action}
    {started : List Process} (hstep : ServiceStep settings s.toServer t a server t' started)
    (hrow' : server.runs.get? runId = some row') :
    FromRow runId s (.system (.service t)) (.system (.service t')) row' := by
  have hrow := rowStep_of_step hstep runId
  rw [hrow'] at hrow
  generalize hold : s.runs.get? runId = old at hrow
  cases hrow with
  | same => exact .kept hold rfl .inl
  | @post p _ ht ht' hid =>
    subst ht
    cases hstep with
    | post hpost =>
      cases hpost with
      | @insert project hphase hproject =>
        have hexists := List.mem_map_of_mem (f := ProjectRow.projectId)
          (List.mem_of_find?_eq_some hproject)
        have hsame : project.projectId = p.projectId := by simpa using List.find?_some hproject
        exact .inserted hold rfl (hsame ▸ hexists) rfl hid rfl hphase rfl
      | _ => cases ht'
  | lock | release | progress => exact .kept hold rfl .inl
  | @change _ check _ _ row =>
    refine .kept hold (project_change check row) ?_
    intro hcompleted
    left
    unfold Check.change at hcompleted
    split_ifs at hcompleted <;> cases hcompleted
  | begin | fail => exact .kept hold rfl fun hcompleted => by cases hcompleted
  | complete ht =>
    subst ht
    exact .kept hold rfl fun _ => .inr rfl

theorem fromRow_deployedStep {s s' : Storage} {t t' : DeployedProcess}
    {started : List DeployedProcess} (hstep : DeployedStep settings s t s' t' started)
    (hrow' : s'.runs.get? runId = some row') : FromRow runId s t t' row' := by
  have hkept : s'.runs = s.runs → FromRow runId s t t' row' := by
    intro hruns
    rw [hruns] at hrow'
    exact .kept hrow' rfl .inl
  cases hstep with
  | system hsystem =>
    have hsystem := systemStep_of_step hsystem
    generalize SystemAction.action _ = action at hsystem
    cases hsystem with
    | service hservice _ hstores =>
      rw [hstores.sameTables.runs] at hrow'
      exact fromRow_serviceStep hservice hrow'
    | projectDelete hdelete =>
      apply hkept
      cases hdelete <;> rfl
    | removeProject hremove =>
      apply hkept
      cases hremove <;> rfl
    | deleteObjects => exact hkept rfl
  | @runDelete r _ _ _ hdelete =>
    cases hdelete with
    | delete =>
      have herase : (s.runs.erase r.runId).get? runId = some row' := hrow'
      by_cases hid : runId = r.runId
      · rw [hid, Dict.get?_erase_self] at herase
        cases herase
      · rw [Dict.get?_erase_of_ne _ hid] at herase
        exact .kept herase rfl .inl
    | _ => exact hkept rfl

end Rows

section Attributed
variable {settings : Settings} {s s' : Storage} {t t' : DeployedProcess}
  {before after started : List DeployedProcess}

theorem toldProject_runTaskStep {server server' : Server} {t t' : RunTask} {a : Service.Action}
    {started : List RunTask} (h : RunTaskStep server t a server' t' started) :
    toldProject t' = toldProject t ∧
      ∀ u ∈ started, ∀ q ∈ toldProject u, q ∈ toldProject t := by
  cases h with
  | schedule =>
    refine ⟨rfl, fun u hu q hq => ?_⟩
    split_ifs at hu
    all_goals
      rw [List.mem_singleton.mp hu] at hq
      exact hq
  | followAggregation =>
    refine ⟨rfl, fun u hu q hq => ?_⟩
    split_ifs at hu
    · rw [List.mem_singleton.mp hu] at hq
      cases hq
    · rw [List.mem_singleton.mp hu] at hq
      exact hq
  | followGroups =>
    refine ⟨rfl, fun u hu q hq => ?_⟩
    split_ifs at hu
    all_goals
      rw [List.mem_singleton.mp hu] at hq
      cases hq
  | header =>
    refine ⟨rfl, fun u hu q hq => ?_⟩
    unfold chordSchedules at hu
    split_ifs at hu
    · rw [List.mem_singleton.mp hu] at hq
      cases hq
    · rw [List.mem_singleton.mp hu] at hq
      exact hq
    · cases hu
  | start | solve =>
    refine ⟨rfl, fun u hu q hq => ?_⟩
    rw [List.mem_singleton.mp hu] at hq
    exact hq
  | followPermutation =>
    refine ⟨rfl, fun u hu q hq => ?_⟩
    rw [List.mem_singleton.mp hu] at hq
    cases hq
  | fail =>
    refine ⟨?_, fun u hu q hq => ?_⟩
    · cases t <;> rfl
    · unfold RunTask.errorCallback at hu
      split at hu
      case h_3 => cases hu
      all_goals
        rw [List.mem_singleton.mp hu] at hq
        cases hq
  | _ => exact ⟨rfl, fun u hu => absurd hu List.not_mem_nil⟩

theorem scope_schedule (schedule : Schedule) : schedule.process.scope.runs = [] := by
  cases schedule <;> rfl

theorem project_serviceStep {server server' : Server} {t t' : Process} {a : Service.Action}
    {started : List Process} (h : ServiceStep settings server t a server' t' started) :
    ∀ u ∈ t' :: started, u.scope.runs ≠ [] →
      ∀ q ∈ DeployedProcess.project (.system (.service u)),
        q ∈ DeployedProcess.project (.system (.service t)) := by
  intro u hmem hruns q hq
  cases h with
  | request | uploadTask =>
    rcases List.mem_cons.mp hmem with rfl | hu
    · exact hq
    · obtain ⟨schedule, -, rfl⟩ := List.mem_map.mp hu
      exact absurd (scope_schedule schedule) hruns
  | post =>
    rcases List.mem_cons.mp hmem with rfl | hu
    · exact hq
    · split_ifs at hu
      · rw [List.mem_singleton.mp hu] at hruns
        exact absurd rfl hruns
      · cases hu
  | check =>
    rcases List.mem_cons.mp hmem with rfl | hu
    · exact hq
    · obtain ⟨runId, -, rfl⟩ := Option.map_eq_some_iff.mp (Option.mem_toList.mp hu)
      exact hq
  | runTask htask =>
    obtain ⟨hsame, hstarted⟩ := toldProject_runTaskStep htask
    rcases List.mem_cons.mp hmem with rfl | hu
    · rw [DeployedProcess.project, hsame] at hq
      exact hq
    · obtain ⟨v, hv, rfl⟩ := List.mem_map.mp hu
      exact hstarted v hv q hq

theorem projectId_removeStep {t t' : RemoveProject} {a : Service.Action}
    {started : List SystemProcess} (h : RemoveStep s t a s' t' started) :
    t'.projectId = t.projectId := by
  cases h <;> rfl

theorem project_deployedStep (hstep : DeployedStep settings s t s' t' started) :
    ∀ u ∈ t' :: started, u.scope.runs ≠ [] → ∀ q ∈ u.project, q ∈ t.project := by
  intro u hmem hruns q hq
  cases hstep with
  | system hsystem =>
    have hsystem := systemStep_of_step hsystem
    generalize SystemAction.action _ = action at hsystem
    cases hsystem with
    | service hservice =>
      have hnext := project_serviceStep hservice
      rcases List.mem_cons.mp hmem with rfl | hu
      · exact hnext _ List.mem_cons_self hruns q hq
      · obtain ⟨w, hw, rfl⟩ := List.mem_map.mp hu
        obtain ⟨v, hv, rfl⟩ := List.mem_map.mp hw
        exact hnext v (List.mem_cons_of_mem _ hv) hruns q hq
    | projectDelete =>
      rcases List.mem_cons.mp hmem with rfl | hu
      · exact absurd rfl hruns
      · obtain ⟨_, hu, rfl⟩ := List.mem_map.mp hu
        split_ifs at hu
        · rw [List.mem_singleton.mp hu] at hruns
          exact absurd rfl hruns
        · cases hu
    | removeProject hremove =>
      rcases List.mem_cons.mp hmem with rfl | hu
      · rw [DeployedProcess.project, projectId_removeStep hremove] at hq
        exact hq
      · obtain ⟨_, hu, rfl⟩ := List.mem_map.mp hu
        cases hremove with
        | finish =>
          rw [List.mem_singleton.mp hu] at hruns
          exact absurd rfl hruns
        | _ => cases hu
    | deleteObjects =>
      rw [List.mem_singleton.mp hmem] at hruns
      exact absurd rfl hruns
  | runDelete =>
    rcases List.mem_cons.mp hmem with rfl | hu
    · exact hq
    · obtain ⟨files, -, rfl⟩ := Option.map_eq_some_iff.mp (Option.mem_toList.mp hu)
      exact absurd rfl hruns

theorem scope_project {pool : Pool Storage DeployedProcess} (h : Attributed pool)
    (ht : t ∈ pool.processes) {q : ProjectId} (hq : q ∈ t.project) :
    ∀ projectId ∈ t.scope.projects, projectId = q := by
  intro projectId hmem
  match t with
  | .system (.service (.check c)) =>
    obtain rfl := Option.some.inj hq
    exact List.mem_singleton.mp hmem
  | .system (.service (.runTask _)) => cases hmem
  | .system (.removeProject t) =>
    obtain rfl := Option.some.inj hq
    rcases List.mem_cons.mp hmem with rfl | hmem
    · rfl
    · obtain ⟨r, hr, rfl⟩ := List.mem_map.mp hmem
      exact h.masks t ht r hr
  | .runDelete r =>
    obtain rfl := Option.some.inj hq
    exact List.mem_singleton.mp hmem

/-- The masks that a deletion has found are those of its project. -/
theorem masks_deployedStep {u : RemoveProject}
    (h : ∀ v, t = .system (.removeProject v) → ∀ r ∈ v.deleted.permutationMasks,
      r.project = v.projectId)
    (hstep : DeployedStep settings s t s' t' started)
    (hu : .system (.removeProject u) ∈ t' :: started) :
    ∀ r ∈ u.deleted.permutationMasks, r.project = u.projectId := by
  intro r hr
  cases hstep with
  | system hsystem =>
    have hsystem := systemStep_of_step hsystem
    generalize SystemAction.action _ = action at hsystem
    cases hsystem with
    | service =>
      rcases List.mem_cons.mp hu with hu | hu
      · cases hu
      · obtain ⟨w, hw, heq⟩ := List.mem_map.mp hu
        cases heq
        obtain ⟨v, -, heq⟩ := List.mem_map.mp hw
        cases heq
    | projectDelete =>
      rcases List.mem_cons.mp hu with hu | hu
      · cases hu
      · obtain ⟨w, hw, heq⟩ := List.mem_map.mp hu
        cases heq
        split_ifs at hw
        · cases List.mem_singleton.mp hw
          cases hr
        · cases hw
    | removeProject hremove =>
      rcases List.mem_cons.mp hu with hu | hu
      · cases hu
        cases hremove with
        | deleteMasks => exact of_decide_eq_true (List.mem_filter.mp hr).2
        | _ => exact h _ rfl r hr
      · obtain ⟨w, hw, heq⟩ := List.mem_map.mp hu
        cases heq
        cases hremove with
        | finish => cases List.mem_singleton.mp hw
        | _ => cases hw
    | deleteObjects => cases List.mem_singleton.mp hu
  | runDelete =>
    rcases List.mem_cons.mp hu with hu | hu
    · cases hu
    · obtain ⟨files, -, heq⟩ := Option.map_eq_some_iff.mp (Option.mem_toList.mp hu)
      cases heq

/-- Only a creation inserts the row of a project, and no step deletes one. -/
theorem projectIds_deployedStep (hstep : DeployedStep settings s t s' t' started) :
    s'.db.projects.map ProjectRow.projectId = s.db.projects.map ProjectRow.projectId := by
  cases hstep with
  | system hsystem =>
    have heffect := effect_of_step (systemStep_of_step hsystem)
    cases heffect with
    | keep _ hprojects =>
      rw [← map_projectId_projectColumns, hprojects, map_projectId_projectColumns]
    | mark =>
      rw [← map_projectId_projectColumns, ← map_projectId_projectColumns]
      exact map_projectId_markProjectDeleted s.db _
    | delete => rfl
  | runDelete hdelete => rw [hdelete.same.1]

theorem Attributed.step (h : Attributed ⟨s, before ++ t :: after⟩)
    (hstep : DeployedStep settings s t s' t' started) :
    Attributed ⟨s', before ++ t' :: after ++ started⟩ := by
  have ht : t ∈ before ++ t :: after := List.mem_append_right _ List.mem_cons_self
  constructor
  · intro runId row' hrow'
    show row'.project ∈ s'.db.projects.map ProjectRow.projectId
    rw [projectIds_deployedStep hstep]
    cases fromRow_deployedStep hstep hrow' with
    | kept hrow hproject => exact hproject ▸ h.projects hrow
    | inserted _ _ hexists => exact hexists
  · intro runId row' hrow'
    cases fromRow_deployedStep hstep hrow' with
    | kept hrow hproject =>
      rw [hproject]
      exact (h.rows hrow).step hstep
    | @inserted p _ _ _ _ hid hproject _ ht' =>
      refine ⟨{ p with phase := .committed () }, ?_, hid, hproject, nofun⟩
      simp [← ht']
  · have hother : ∀ u ∈ before ++ t :: after, ∀ runId ∈ u.scope.runs, ∃ projectId,
        PostedFor runId projectId ⟨s', before ++ t' :: after ++ started⟩ ∧
          ∀ q ∈ u.project, q = projectId := by
      intro u hu runId hrun
      obtain ⟨projectId, hposted, hq⟩ := h.named u hu runId hrun
      exact ⟨projectId, hposted.step hstep, hq⟩
    have hnext : ∀ u ∈ t' :: started, ∀ runId ∈ u.scope.runs, ∃ projectId,
        PostedFor runId projectId ⟨s', before ++ t' :: after ++ started⟩ ∧
          ∀ q ∈ u.project, q = projectId := by
      intro u hu runId hrun
      have hproject := project_deployedStep hstep u hu (List.ne_nil_of_mem hrun)
      rcases (grows_deployedStep hstep u hu).runs runId hrun with hold | ⟨row, hrow, hscope⟩
      · obtain ⟨projectId, hposted, hq⟩ := hother t ht runId hold
        exact ⟨projectId, hposted, fun q hmem => hq q (hproject q hmem)⟩
      · refine ⟨row.project, (h.rows hrow).step hstep, fun q hmem => ?_⟩
        exact (scope_project h ht (hproject q hmem) row.project hscope).symm
    intro u hu
    simp only [List.mem_append, List.mem_cons] at hu
    rcases hu with (hu | rfl | hu) | hu
    · exact hother u (List.mem_append_left _ hu)
    · exact hnext _ List.mem_cons_self
    · exact hother u (List.mem_append_right _ (List.mem_cons_of_mem _ hu))
    · exact hnext u (List.mem_cons_of_mem _ hu)
  · intro u hu
    have hnew : ∀ v ∈ t' :: started, v = .system (.removeProject u) →
        ∀ r ∈ u.deleted.permutationMasks, r.project = u.projectId := by
      rintro _ hv rfl
      exact masks_deployedStep (fun v hv => h.masks v (hv ▸ ht)) hstep hv
    simp only [List.mem_append, List.mem_cons] at hu
    rcases hu with (hu | hu | hu) | hu
    · exact h.masks u (List.mem_append_left _ hu)
    · exact hnew _ List.mem_cons_self hu.symm
    · exact h.masks u (List.mem_append_right _ (List.mem_cons_of_mem _ hu))
    · exact hnew _ (List.mem_cons_of_mem _ hu) rfl

theorem Attributed.arrive {processes : List DeployedProcess} (h : Attributed ⟨s, processes⟩)
    (harriving : Arriving t) : Attributed ⟨s, processes ++ [t]⟩ := by
  have hposted : ∀ {runId : RunId} {projectId : ProjectId},
      PostedFor runId projectId ⟨s, processes⟩ →
        PostedFor runId projectId ⟨s, processes ++ [t]⟩ := by
    rintro runId projectId ⟨p, hp, hrest⟩
    exact ⟨p, List.mem_append_left _ hp, hrest⟩
  have hruns : t.scope.runs = [] := by
    match t with
    | .system (.service (.request _)) | .system (.service (.post _)) => rfl
    | .system (.projectDelete _) => rfl
    | .runDelete r =>
      have hphase : r.phase = .received := of_decide_eq_true harriving
      simp [DeployedProcess.scope, hphase]
  constructor
  · exact h.projects
  · intro runId row hrow
    exact hposted (h.rows hrow)
  · intro u hu runId hrun
    rcases List.mem_append.mp hu with hu | hu
    · obtain ⟨projectId, hold, hq⟩ := h.named u hu runId hrun
      exact ⟨projectId, hposted hold, hq⟩
    · rw [List.mem_singleton.mp hu, hruns] at hrun
      cases hrun
  · intro u hu
    rcases List.mem_append.mp hu with hu | hu
    · exact h.masks u hu
    · rw [← List.mem_singleton.mp hu] at harriving
      cases harriving

theorem Attributed.posted {codes : Codes} {data : Option NewProject} {r r' : Registry}
    {result : Except Error NewProjectResponse} {processes : List DeployedProcess}
    (h : Attributed ⟨r.toStorage, processes⟩) (hposted : Posted codes data r r' result) :
    Attributed ⟨r'.toStorage, processes⟩ := by
  have hruns : r'.runs = r.runs := by cases hposted <;> rfl
  refine ⟨fun hrow => ?_, fun hrow => h.rows (hruns ▸ hrow), h.named, h.masks⟩
  have hexists := h.projects (hruns ▸ hrow)
  rw [← map_projectId_projectColumns] at hexists ⊢
  exact (extends_posted hposted).projects _ hexists

theorem attributed_of_reaches {d : Deployment} (h : Deployment.Reaches settings .new d) :
    Attributed d.pool := by
  induction h with
  | refl =>
    refine ⟨fun hrow => ?_, fun hrow => ?_, fun t ht => ?_, fun t ht => ?_⟩
    · cases hrow
    · cases hrow
    · cases ht
    · cases ht
  | @tail d d' hreaches hstep ih =>
    have hrecorded := (sound_of_reaches hreaches).recorded
    cases hstep with
    | @create codes data r result hpost =>
      have hposted := hrecorded.postedOf codes data
      rw [hpost] at hposted
      exact ih.posted hposted
    | arrive harriving => exact ih.arrive harriving
    | run hrun =>
      obtain ⟨before, t, after, s', t', started, hpool, hdeployed, rfl⟩ :=
        Deployment.deployedStep_of_run hrun
      rw [hpool] at ih
      exact ih.step hdeployed

end Attributed
end EntityService.Models
