import EntityService.Models.RunOwners

/-! The results of a run are kept until the run or its project is deleted: other rows may follow
those of a result, and the first one stays the first. -/
namespace EntityService.Models
open Lib Service Views Tasks.ProjectCleanup

/-- The rows of the results of a run are kept. Others may follow them. -/
structure KeepsResults (projectId : ProjectId) (runId : RunId) (s s' : Storage) : Prop where
  runResults : s.runResults.filter (fun r => r.runId = runId) <+:
    s'.runResults.filter fun r => r.runId = runId
  similarityScores : s.similarityScores.filter (fun r => r.1 = runId) <+:
    s'.similarityScores.filter fun r => r.1 = runId
  permutations : ∀ d ∈ s'.db.providerColumns, d.2.2 = projectId → d ∈ s.db.providerColumns ∧
    s.permutations.filter (fun r => r.dp = d.1 ∧ r.run = runId) <+:
      s'.permutations.filter fun r => r.dp = d.1 ∧ r.run = runId
  permutationMasks : s.permutationMasks.filter (fun r => r.project = projectId ∧ r.run = runId) <+:
    s'.permutationMasks.filter fun r => r.project = projectId ∧ r.run = runId

section Keeps
variable {projectId : ProjectId} {runId : RunId} {s s' s'' : Storage}

theorem KeepsResults.refl (projectId : ProjectId) (runId : RunId) (s : Storage) :
    KeepsResults projectId runId s s :=
  ⟨List.prefix_rfl, List.prefix_rfl, fun _ hd _ => ⟨hd, List.prefix_rfl⟩, List.prefix_rfl⟩

theorem KeepsResults.trans (h : KeepsResults projectId runId s s')
    (h' : KeepsResults projectId runId s' s'') : KeepsResults projectId runId s s'' where
  runResults := h.runResults.trans h'.runResults
  similarityScores := h.similarityScores.trans h'.similarityScores
  permutations d hd hproject := by
    obtain ⟨hd', hrows'⟩ := h'.permutations d hd hproject
    obtain ⟨hd, hrows⟩ := h.permutations d hd' hproject
    exact ⟨hd, hrows.trans hrows'⟩
  permutationMasks := h.permutationMasks.trans h'.permutationMasks

theorem KeepsResults.of_server {server : Server}
    (hproviders : server.db.providerColumns = s.db.providerColumns) :
    KeepsResults projectId runId s { s with toServer := server } :=
  ⟨List.prefix_rfl, List.prefix_rfl, fun _ hd _ => ⟨hproviders ▸ hd, List.prefix_rfl⟩,
    List.prefix_rfl⟩

theorem keeps_stores {t : Process} (h : Stores s t s') : KeepsResults projectId runId s s' := by
  have hsame : s'.db.providerColumns = s.db.providerColumns :=
    Database.providerColumns_congr h.sameTables.dataproviders
  cases h with
  | scores =>
    exact ⟨List.prefix_rfl, filter_prefix_append _ _ _, fun _ hd _ => ⟨hd, List.prefix_rfl⟩,
      List.prefix_rfl⟩
  | groups =>
    exact ⟨filter_prefix_append _ _ _, List.prefix_rfl, fun _ hd _ => ⟨hd, List.prefix_rfl⟩,
      List.prefix_rfl⟩
  | permutations =>
    exact ⟨List.prefix_rfl, List.prefix_rfl, fun _ hd _ => ⟨hd, filter_prefix_append _ _ _⟩,
      filter_prefix_append _ _ _⟩
  | upload _ hinsert =>
    obtain ⟨_, -, hinsert⟩ := bind_eq_ok.mp hinsert
    cases hinsert
    exact ⟨List.prefix_rfl, List.prefix_rfl, fun _ hd _ => ⟨hsame ▸ hd, List.prefix_rfl⟩,
      List.prefix_rfl⟩
  | nothing => exact .refl projectId runId s

theorem keeps_commitDeleted {t : RemoveProject} (hother : t.projectId ≠ projectId)
    (hruns : runId ∉ (RemoveProject.scope t).runs)
    (hmasks : ∀ m ∈ t.deleted.permutationMasks, m.project = t.projectId) :
    KeepsResults projectId runId s (s.commitDeleted t.deleted) := by
  simp only [RemoveProject.scope, List.mem_append, not_or] at hruns
  obtain ⟨-, hresults, hpermutations⟩ := hruns
  refine ⟨?_, List.prefix_rfl, ?_, ?_⟩
  · show _ <+: (s.runResults.diff t.deleted.runResults).filter _
    rw [filter_diff_of_not]
    intro x hx
    apply decide_eq_false
    rintro rfl
    exact hresults (List.mem_map_of_mem hx)
  · intro d hd hproject
    have hcolumns : d ∈ (s.db.deleteDataproviders t.deleted.dpIds).providerColumns := hd
    rw [providerColumns_deleteDataproviders, List.mem_filter] at hcolumns
    obtain ⟨hmem, hkept⟩ := hcolumns
    refine ⟨hmem, ?_⟩
    show _ <+: ((s.permutations.diff t.deleted.permutations).filter _).filter _
    rw [filter_filter_of_imp, filter_diff_of_not]
    · intro x hx
      apply decide_eq_false
      rintro ⟨-, rfl⟩
      exact hpermutations (List.mem_map_of_mem hx)
    · intro x _ hx
      rw [decide_eq_true_eq] at hx ⊢
      rw [hx.1]
      exact of_decide_eq_true hkept
  · show _ <+: (s.permutationMasks.diff t.deleted.permutationMasks).filter _
    rw [filter_diff_of_not]
    intro m hm
    apply decide_eq_false
    rintro ⟨hproject, -⟩
    exact hother ((hmasks m hm).symm.trans hproject)

theorem keeps_deleteRunData {r : RunId} (hother : r ≠ runId) :
    KeepsResults projectId runId s (s.deleteRunData r) := by
  have hrows : ∀ {α : Type} {run : α → RunId} {p : α → Bool} {l : List α},
      (∀ x, p x = true → run x = runId) →
        l.filter p <+: (l.filter fun x => run x ≠ r).filter p := by
    intro α run p l hp
    rw [filter_filter_of_imp]
    intro x _ hx
    rw [decide_eq_true_eq, hp x hx]
    exact hother.symm
  refine ⟨hrows ?_, hrows ?_, fun d hd _ => ⟨hd, hrows ?_⟩, hrows ?_⟩
  · exact fun _ => of_decide_eq_true
  · exact fun _ => of_decide_eq_true
  · exact fun _ hx => (of_decide_eq_true hx).2
  · exact fun _ hx => (of_decide_eq_true hx).2

theorem keeps_posted {codes : Codes} {data : Option NewProject} {r r' : Registry}
    {result : Except Error NewProjectResponse} (h : Posted codes data r r' result)
    (hproject : projectId ∈ r.db.projects.map ProjectRow.projectId) :
    KeepsResults projectId runId r.toStorage r'.toStorage := by
  cases h with
  | @created p _ hnew =>
    refine ⟨List.prefix_rfl, List.prefix_rfl, fun d hd hid => ⟨?_, List.prefix_rfl⟩,
      List.prefix_rfl⟩
    rw [providerColumns_insertProject] at hd
    rcases List.mem_append.mp hd with hd | hd
    · exact hd
    · rw [← hid, (of_mem_newColumns hd).1] at hproject
      exact absurd hproject hnew.projectId
  | denied | failed => exact .refl projectId runId r.toStorage

end Keeps

section Step
variable {settings : Settings} {projectId : ProjectId} {runId : RunId} {r : Registry}
  {s' : Storage} {t t' : DeployedProcess} {before after started : List DeployedProcess}

/-- A step keeps the results of a run that is there after it, unless the deletion of its project has
been requested. -/
theorem keeps_deployedStep (h : Attributed ⟨r.toStorage, before ++ t :: after⟩)
    (hone : Pool.total (posts runId) ⟨r.toStorage, before ++ t :: after⟩ ≤ 1)
    (hposted : PostedFor runId projectId ⟨r.toStorage, before ++ t :: after⟩)
    (hknows : ∀ u, t = .system u → Knows r u) (hunmarked : ¬ Marked r projectId)
    (hstep : DeployedStep settings r.toStorage t s' t' started) (hexists : s'.RunExists runId) :
    KeepsResults projectId runId r.toStorage s' := by
  have ht : t ∈ before ++ t :: after := List.mem_append_right _ List.mem_cons_self
  cases hstep with
  | system hsystem =>
    have hsystem := systemStep_of_step hsystem
    generalize SystemAction.action _ = action at hsystem
    cases hsystem with
    | service hservice _ hstores =>
      have hproviders := providerColumns_step hservice
      exact (KeepsResults.of_server hproviders).trans (keeps_stores hstores)
    | projectDelete hdelete =>
      cases hdelete with
      | mark => exact .of_server rfl
      | _ => exact .refl projectId runId r.toStorage
    | @removeProject u _ _ _ _ hremove =>
      cases hremove with
      | setState => exact .of_server rfl
      | commit =>
        have hother : u.projectId ≠ projectId := by
          rintro rfl
          exact hunmarked (hknows _ rfl).1
        refine keeps_commitDeleted hother (fun hrun => ?_) (h.masks u ht)
        obtain ⟨q, hq, hsame⟩ := h.named _ ht runId hrun
        exact hother ((hsame _ rfl).trans (hq.unique hposted hone))
      | _ => exact .refl projectId runId r.toStorage
    | deleteObjects =>
      exact ⟨List.prefix_rfl, List.prefix_rfl, fun _ hd _ => ⟨hd, List.prefix_rfl⟩,
        List.prefix_rfl⟩
  | @runDelete u _ _ _ hdelete =>
    cases hdelete with
    | setState => exact .of_server rfl
    | delete =>
      apply keeps_deleteRunData
      rintro rfl
      exact Dict.get?_eq_none.mp (Dict.get?_erase_self _ _) hexists
    | _ => exact .refl projectId runId r.toStorage

end Step

section Created
variable {settings : Settings} {d d' : Deployment} {r : Registry} {created : List Created}
  {c : Created}

theorem created_of_project (h : Deployment.Reaches settings .new d) :
    ∀ projectId ∈ d.pool.shared.db.projects.map ProjectRow.projectId,
      ∃ c ∈ d.created, c.response.projectId = projectId := by
  induction h with
  | refl => exact fun _ hmem => absurd hmem List.not_mem_nil
  | @tail d d' hreaches hstep ih =>
    intro projectId hmem
    cases hstep with
    | @create codes data r result hpost =>
      have hposted := (sound_of_reaches hreaches).recorded.postedOf codes data
      rw [hpost] at hposted
      have hold : projectId ∈ d.pool.shared.db.projects.map ProjectRow.projectId →
          ∃ c ∈ d.created ++ (createdBy data result).toList,
            c.response.projectId = projectId := by
        intro hmem
        obtain ⟨c, hc, hid⟩ := ih projectId hmem
        exact ⟨c, List.mem_append_left _ hc, hid⟩
      cases hposted with
      | @created p hjson =>
        obtain ⟨document, rfl, -⟩ := fromJson_eq_ok hjson
        have hprojects : projectId ∈
            (d.pool.shared.db.projects ++ [p.row]).map ProjectRow.projectId := hmem
        rw [List.map_append] at hprojects
        rcases List.mem_append.mp hprojects with hmem | hmem
        · exact hold hmem
        · refine ⟨⟨document, p.response⟩, ?_, (List.mem_singleton.mp hmem).symm⟩
          exact List.mem_append_right _ (List.mem_singleton_self _)
      | denied | failed => exact hold hmem
    | arrive => exact ih projectId hmem
    | run hrun =>
      obtain ⟨before, t, after, s', t', started, -, hdeployed, rfl⟩ :=
        Deployment.deployedStep_of_run hrun
      apply ih
      rw [← projectIds_deployedStep hdeployed]
      exact hmem

theorem created_subset (h : Deployment.Reaches settings d d') : d.created ⊆ d'.created := by
  induction h with
  | refl => exact List.Subset.refl _
  | tail _ hstep ih =>
    cases hstep with
    | create => exact fun c hc => List.mem_append_left _ (ih hc)
    | arrive | run => exact ih

theorem Recorded.getResultType (h : Recorded r created) (hc : c ∈ created) :
    ∃ resultType, c.document.resultType.bind (validResultTypes.lookup ·) = some resultType ∧
      r.getResultType c.response.projectId = .ok resultType := by
  obtain ⟨column, hregistered⟩ := h.registered c hc
  obtain ⟨row, hrow, rfl⟩ := List.mem_map.mp hregistered.mem
  have hid : row.projectId = c.response.projectId := hregistered.projectId
  refine ⟨row.resultType, hregistered.describes.ofType, ?_⟩
  rw [Storage.getResultType, ← hid, Database.findProject_of_mem h.uniqueColumns.projectIds hrow]
  rfl

theorem Recorded.checkProjectAuth_iff (h : Recorded r created) (hc : c ∈ created)
    (token : Option Token) :
    r.checkProjectAuth c.response.projectId token ↔ token = some c.response.resultToken := by
  obtain ⟨column, hregistered⟩ := h.registered c hc
  obtain ⟨row, hrow, rfl⟩ := List.mem_map.mp hregistered.mem
  have hid : row.projectId = c.response.projectId := hregistered.projectId
  have haccess := hregistered.access
  rw [← hid]
  exact Views.checkProjectAuth_iff h.uniqueColumns.projectIds hrow haccess token

end Created
end EntityService.Models
