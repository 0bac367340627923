import EntityService.Database.SizeCommit
import EntityService.Models.Unaffected
import EntityService.Service.RunTokens

/-! What the requests and the tasks of the service name, and what their steps leave as it is. A
step changes only what its process names, and what it starts names nothing of another project. -/
namespace EntityService.Service
open Lib Database

/-- What a request or a task names, by which it finds the rows that it changes. -/
structure Scope where
  projects : List ProjectId
  providers : List DpId
  runs : List RunId
  tokens : List Token

structure Scope.Outside (x : Scope) (projectId : ProjectId) (s : Server) : Prop where
  projects : projectId ∉ x.projects
  providers : ∀ dpId ∈ x.providers, ¬ s.db.Owns projectId dpId
  runs : ∀ runId ∈ x.runs, ∀ row, s.runs.get? runId = some row → row.project ≠ projectId
  tokens : ∀ dpId, s.db.Owns projectId dpId → ∀ r ∈ s.db.uploadsOf dpId, r.token ∉ x.tokens

section Outside
variable {projectId : ProjectId} {s s' : Server} {x y : Scope}

theorem Scope.Outside.unaffected (hx : x.Outside projectId s) (h : s.Unaffected projectId s') :
    x.Outside projectId s' where
  projects := hx.projects
  providers dpId hdp howns := hx.providers dpId hdp (h.db.owns_iff.mp howns)
  runs runId hrun row hrow hproject :=
    hx.runs runId hrun row ((h.get?_iff hproject).mp hrow) hproject
  tokens dpId howns r hr := by
    have howns' := h.db.owns_iff.mp howns
    rw [h.db.uploads howns'] at hr
    exact hx.tokens dpId howns' r hr

theorem Scope.outside_projects {other : ProjectId} (h : other ≠ projectId) :
    (⟨[other], [], [], []⟩ : Scope).Outside projectId s where
  projects hmem := h (List.mem_singleton.mp hmem).symm
  providers _ hdp := absurd hdp List.not_mem_nil
  runs _ hrun := absurd hrun List.not_mem_nil
  tokens _ _ _ _ := List.not_mem_nil

/-- What is named after a step: what was named before it, and what it has found of the projects
that were named. -/
structure Scope.Grows (x y : Scope) (s : Server) : Prop where
  projects : y.projects ⊆ x.projects
  providers : ∀ dpId ∈ y.providers, dpId ∈ x.providers ∨ ∃ q ∈ x.projects, s.db.Owns q dpId
  runs : ∀ runId ∈ y.runs, runId ∈ x.runs ∨
    ∃ row, s.runs.get? runId = some row ∧ row.project ∈ x.projects
  tokens : y.tokens ⊆ x.tokens

theorem Scope.Grows.of_subset (hprojects : y.projects ⊆ x.projects)
    (hproviders : y.providers ⊆ x.providers) (hruns : y.runs ⊆ x.runs)
    (htokens : y.tokens ⊆ x.tokens) : x.Grows y s :=
  ⟨hprojects, fun _ hdp => .inl (hproviders hdp), fun _ hrun => .inl (hruns hrun), htokens⟩

theorem Scope.Grows.refl (x : Scope) (s : Server) : x.Grows x s :=
  .of_subset (List.Subset.refl _) (List.Subset.refl _) (List.Subset.refl _) (List.Subset.refl _)

theorem Scope.Grows.of_project {other : ProjectId} (h : other ∈ x.projects) :
    x.Grows ⟨[other], [], [], []⟩ s :=
  .of_subset (List.cons_subset.mpr ⟨h, List.nil_subset _⟩) (List.nil_subset _) (List.nil_subset _)
    (List.nil_subset _)

/-- A provider belongs to one project. -/
theorem owns_unique {db : Database} (hkeys : db.UniqueProviders) {other : ProjectId} {dpId : DpId}
    (h : db.Owns projectId dpId) (h' : db.Owns other dpId) : projectId = other := by
  obtain ⟨d, hd, rfl⟩ := h
  obtain ⟨d', hd', hid⟩ := h'
  obtain ⟨hmem, hproject⟩ := List.mem_filter.mp hd
  obtain ⟨hmem', hproject'⟩ := List.mem_filter.mp hd'
  obtain rfl := List.inj_on_of_nodup_map hkeys hmem' hmem hid
  exact (of_decide_eq_true hproject).symm.trans (of_decide_eq_true hproject')

/-- What is found of other projects is outside of a project, too. -/
theorem Scope.Grows.outside (h : x.Grows y s) (hkeys : s.db.UniqueProviders)
    (hx : x.Outside projectId s) : y.Outside projectId s where
  projects hmem := hx.projects (h.projects hmem)
  providers dpId hdp howns := by
    rcases h.providers dpId hdp with hdp | ⟨q, hq, hother⟩
    · exact hx.providers dpId hdp howns
    · exact hx.projects (owns_unique hkeys hother howns ▸ hq)
  runs runId hrun row hrow hproject := by
    rcases h.runs runId hrun with hrun | ⟨row', hrow', hq⟩
    · exact hx.runs runId hrun row hrow hproject
    · obtain rfl := Option.some.inj (hrow.symm.trans hrow')
      exact hx.projects (hproject ▸ hq)
  tokens dpId howns r hr hmem := hx.tokens dpId howns r hr (h.tokens hmem)

end Outside

def Upload.scope (u : Upload) : Scope := ⟨[u.projectId], [u.dpId], [], [u.receiptToken]⟩

def CheckPhase.providers : CheckPhase → List DpId
  | .sized _ invalid => invalid
  | _ => []

def CheckPhase.runs : CheckPhase → List RunId
  | .updating _ todo held updated => todo ++ held ++ updated
  | .committed newRuns => newRuns
  | _ => []

/-- A task of a run finds what it changes by the run. -/
def Process.scope : Process → Scope
  | .request r => r.upload.scope
  | .uploadTask t => t.upload.scope
  | .post p => ⟨[p.projectId], [], [], []⟩
  | .check c => ⟨[c.projectId], c.phase.providers, c.phase.runs, []⟩
  | .runTask t => ⟨[], [], t.run.toList, []⟩

section Step
variable {settings : Settings} {projectId : ProjectId}

theorem unaffected_requestStep {r : UploadRequest} {db db' : Database} {a : Action}
    {phase : RequestPhase} {schedules : List Schedule}
    (h : RequestStep db r a db' phase schedules) (hother : ¬ db.Owns projectId r.upload.dpId) :
    db.Unaffected projectId db' := by
  cases h with
  | lock =>
    rw [lock_eq]
    exact unaffected_setDataproviderState hother fun x => if Free x then .inProgress else x
  | insert _ hok =>
    exact (UploadRequest.insertOwnMetadata_ok hok).1.unaffected
      (UploadRequest.onlyUploads_insertOwnMetadata hok) hother
  | store _ hok =>
    exact (Upload.setReady_ok hok).1.unaffected (Upload.onlyUploads_setReady hok) hother
  | setDone => exact unaffected_setDataproviderState hother fun _ => .done
  | reset => exact unaffected_setDataproviderState hother fun _ => _
  | _ => exact .refl projectId db

/-- An upload that has failed is recorded under its token. -/
theorem unaffected_updateUploadState {db : Database} {u : Upload} {state : ProcessedState}
    (hother : ¬ db.Owns projectId u.dpId)
    (htoken : ∀ dpId, db.Owns projectId dpId → ∀ r ∈ db.uploadsOf dpId, r.token ≠ u.receiptToken) :
    db.Unaffected projectId (db.updateUploadState u.dpId u.receiptToken state) := by
  have honly := onlyUploads_updateUploadState db u.dpId u.receiptToken state
  rcases updateUploadState_cases db u.dpId u.receiptToken state with
    ⟨-, hrows⟩ | ⟨-, hchanges, -⟩
  · apply honly.unaffected
    intro dpId howns
    rw [hrows]
    refine (List.map_congr_left ?_).trans (List.map_id _)
    intro r hr
    exact if_neg (htoken dpId howns r hr)
  · exact hchanges.unaffected honly hother

theorem unaffected_uploadTaskStep {t : UploadTask} {db db' : Database} {a : Action}
    {phase : UploadTaskPhase} {schedules : List Schedule}
    (h : UploadTaskStep settings db t a db' phase schedules)
    (hother : ¬ db.Owns projectId t.upload.dpId)
    (htoken : ∀ dpId, db.Owns projectId dpId →
      ∀ r ∈ db.uploadsOf dpId, r.token ≠ t.upload.receiptToken) :
    db.Unaffected projectId db' := by
  cases h with
  | invalidate _ hok =>
    exact (changesUploads_invalidateUpload hok).1.unaffected (onlyUploads_invalidateUpload hok)
      hother
  | setReady _ hok =>
    exact (Upload.setReady_ok hok).1.unaffected (Upload.onlyUploads_setReady hok) hother
  | insertReady _ hok =>
    exact (Upload.insertReady_ok hok).1.unaffected (Upload.onlyUploads_insertReady hok) hother
  | insertMetadata _ hok =>
    exact (Upload.insertSizedMetadata_ok hok).1.unaffected
      (Upload.onlyUploads_insertSizedMetadata hok) hother
  | recordError => exact unaffected_updateUploadState hother htoken
  | _ => exact .refl projectId db

variable {s s' : Server}

theorem unaffected_postStep {p : Post} {a : Action} {phase : TaskPhase Unit} {checks : Bool}
    (h : PostStep p s a s' phase checks) (hother : p.projectId ≠ projectId) :
    s.Unaffected projectId s' := by
  cases h with
  | insert _ _ hnew =>
    refine ⟨.refl projectId s.db, ?_, fun _ _ => rfl⟩
    exact Dict.filter_entries_set hnew (decide_eq_false hother)
  | _ => exact .refl projectId s

theorem project_change (check : SizeCheck) (row : RunRow) :
    (Check.change check row).project = row.project := by
  unfold Check.change
  split_ifs <;> rfl

theorem unaffected_checkStep {c : Check} {a : Action} {phase : CheckPhase} {newRun : Option RunId}
    (h : CheckStep settings c s a s' phase newRun)
    (hscope : (Process.check c).scope.Outside projectId s) : s.Unaffected projectId s' := by
  have hproviders := hscope.providers
  have hruns := hscope.runs
  have hproject : c.projectId ≠ projectId := by
    intro hid
    exact hscope.projects (by simp [Process.scope, hid])
  simp only [Process.scope] at hproviders hruns
  cases h with
  | invalidate hphase hok =>
    simp only [CheckPhase.providers, hphase] at hproviders
    exact .of_db ((changesUploads_invalidateUpload hok).1.unaffected
      (onlyUploads_invalidateUpload hok) (hproviders _ List.mem_cons_self))
  | lockRun hphase =>
    simp only [CheckPhase.runs, hphase] at hruns
    exact unaffected_modifyRun (fun _ => rfl) (hruns _ (by simp))
  | @commit check held updated hphase =>
    simp only [CheckPhase.runs, hphase] at hruns
    have hrelease : s.Unaffected projectId (s.release held updated (Check.change check)) :=
      unaffected_release (project_change check) fun runId hheld => hruns runId (by simp [hheld])
    unfold Check.commit
    split
    · exact hrelease.trans (.of_db (unaffected_projects hproject _ fun _ => rfl))
    · exact hrelease
  | rollback hphase =>
    simp only [CheckPhase.runs, hphase] at hruns
    exact unaffected_release (fun _ => rfl) fun runId hheld => hruns runId (by simp [hheld])
  | _ => exact .refl projectId s

theorem unaffected_runTaskStep {t t' : RunTask} {a : Action} {started : List RunTask}
    (h : RunTaskStep s t a s' t' started)
    (hscope : (Process.runTask t).scope.Outside projectId s) : s.Unaffected projectId s' := by
  have hruns := hscope.runs
  simp only [Process.scope, Option.mem_toList] at hruns
  cases h with
  | lockRun | progress | overLimit | complete | recordFailure =>
    exact unaffected_modifyRun (fun _ => rfl) (hruns _ rfl)
  | commit | rollback =>
    apply unaffected_release
    · intro _
      rfl
    · intro runId hheld
      rw [List.mem_singleton.mp hheld]
      exact hruns _ rfl
  | activate | completeCached => exact unaffected_setHash (hruns _ rfl)
  | header _ hheader =>
    cases hheader with
    | markFailure => exact unaffected_modifyRun (fun _ => rfl) (hruns _ rfl)
    | _ => exact .refl projectId s
  | _ => exact .refl projectId s

/-- A step of the service changes nothing of a project that its process does not name. -/
theorem unaffected_serviceStep {t t' : Process} {a : Action} {started : List Process}
    (h : ServiceStep settings s t a s' t' started) (hscope : t.scope.Outside projectId s) :
    s.Unaffected projectId s' := by
  cases h with
  | request h => exact .of_db (unaffected_requestStep h (hscope.providers _ List.mem_cons_self))
  | uploadTask h =>
    refine .of_db (unaffected_uploadTaskStep h (hscope.providers _ List.mem_cons_self) ?_)
    intro dpId howns r hr htoken
    exact hscope.tokens dpId howns r hr (by simp [Process.scope, Upload.scope, htoken])
  | post h =>
    refine unaffected_postStep h fun hid => hscope.projects ?_
    simp [Process.scope, hid]
  | check h => exact unaffected_checkStep h hscope
  | runTask h => exact unaffected_runTaskStep h hscope

end Step

section Started
variable {settings : Settings} {projectId : ProjectId} {s s' : Server}

theorem owns_invalid {db : Database} {check : SizeCheck}
    (h : checkProjectEncodingSize settings db projectId = .ok check) :
    ∀ dpId ∈ check.invalid, db.Owns projectId dpId := by
  intro dpId hdp
  obtain ⟨first, hfirst, hrest⟩ := bind_eq_ok.mp h
  obtain ⟨row, hrow, -⟩ := bind_eq_ok.mp hrest
  have hne : db.getUploadedEncodingSizes projectId ≠ [] := by
    intro hnil
    rw [hnil] at hfirst
    cases hfirst
  have hfinds := checkFinds settings (orRaise_eq_ok.mp hrow) hne
  rw [h] at hfinds
  obtain ⟨r, hr, rfl⟩ := List.mem_map.mp (hfinds.invalid dpId hdp)
  have hmem := (List.perm_insertionSort _ _).mem_iff.mp hr
  obtain ⟨upload, hupload, rfl⟩ := List.mem_map.mp hmem
  rw [providerUploads_eq] at hupload
  obtain ⟨d, hd, hupload⟩ := List.mem_flatMap.mp hupload
  obtain ⟨u, -, rfl⟩ := List.mem_map.mp hupload
  exact ⟨d, hd, rfl⟩

theorem grows_schedule {u : Upload} {schedule : Schedule}
    (hschedule : schedule = .checkForExecutableRuns u.projectId ∨
      schedule.process.scope = u.scope) : u.scope.Grows schedule.process.scope s := by
  rcases hschedule with rfl | heq
  · exact .of_project (List.mem_singleton_self _)
  · rw [heq]
    exact .refl u.scope s

theorem grows_checkStep {c : Check} {a : Action} {phase : CheckPhase} {newRun : Option RunId}
    (h : CheckStep settings c s a s' phase newRun) :
    (Process.check c).scope.Grows (Process.check { c with phase := phase }).scope s ∧
      ∀ runId ∈ newRun, runId ∈ c.phase.runs := by
  have hnext : ∀ {next : CheckPhase},
      (∀ dpId ∈ next.providers, dpId ∈ c.phase.providers ∨ s.db.Owns c.projectId dpId) →
      (∀ runId ∈ next.runs, runId ∈ c.phase.runs ∨
        ∃ row, s.runs.get? runId = some row ∧ row.project = c.projectId) →
      (Process.check c).scope.Grows (Process.check { c with phase := next }).scope s := by
    intro next hproviders hruns
    refine ⟨List.Subset.refl _, ?_, ?_, List.Subset.refl _⟩
    · intro dpId hdp
      exact (hproviders dpId hdp).imp id fun howns => ⟨_, List.mem_singleton_self _, howns⟩
    · intro runId hrun
      exact (hruns runId hrun).imp id fun ⟨row, hrow, hid⟩ =>
        ⟨row, hrow, List.mem_singleton.mpr hid⟩
  have hnone : ∀ runId ∈ (none : Option RunId), runId ∈ c.phase.runs := fun _ hrun => by cases hrun
  cases h with
  | testReady =>
    refine ⟨hnext ?_ ?_, hnone⟩
    all_goals split_ifs <;> intro _ hmem <;> cases hmem
  | checkSizes hphase hcheck =>
    refine ⟨hnext (fun dpId hdp => .inr (owns_invalid hcheck dpId hdp)) ?_, hnone⟩
    intro _ hmem
    cases hmem
  | invalidate hphase =>
    refine ⟨hnext (fun dpId hdp => .inl ?_) ?_, hnone⟩
    · rw [hphase]
      exact List.mem_cons_of_mem _ hdp
    · intro _ hmem
      cases hmem
  | beginUpdate =>
    refine ⟨hnext ?_ (fun runId hrun => .inr ?_), hnone⟩
    · intro _ hmem
      cases hmem
    · simp only [CheckPhase.runs, List.append_nil] at hrun
      obtain ⟨row, hrow, hid, -⟩ := mem_findRuns.mp hrun
      exact ⟨row, hrow, hid⟩
  | skipRun hphase =>
    refine ⟨hnext ?_ (fun runId hrun => .inl ?_), hnone⟩
    · intro _ hmem
      cases hmem
    · rw [hphase]
      simp only [CheckPhase.runs, List.mem_append, List.mem_cons] at hrun ⊢
      tauto
  | lockRun hphase =>
    refine ⟨hnext ?_ (fun runId hrun => .inl ?_), hnone⟩
    · intro _ hmem
      cases hmem
    · rw [hphase]
      simp only [CheckPhase.runs, List.mem_append, List.mem_cons] at hrun ⊢
      split_ifs at hrun
      · simp only [List.mem_cons] at hrun
        tauto
      · tauto
  | commit hphase =>
    refine ⟨hnext ?_ (fun runId hrun => .inl ?_), hnone⟩
    · intro _ hmem
      cases hmem
    · rw [hphase]
      simp only [CheckPhase.runs, Check.newRuns, List.mem_append] at hrun ⊢
      split_ifs at hrun
      · cases hrun
      · exact .inr hrun
  | schedule hphase =>
    refine ⟨hnext ?_ (fun runId hrun => .inl ?_), ?_⟩
    · intro _ hmem
      cases hmem
    · rw [hphase]
      exact List.mem_cons_of_mem _ hrun
    · intro runId hrun
      obtain rfl := Option.mem_some_iff.mp hrun
      simp [hphase, CheckPhase.runs]
  | finish | rollback | fail =>
    refine ⟨hnext ?_ ?_, hnone⟩
    · intro _ hmem
      cases hmem
    · intro _ hmem
      cases hmem

/-- A process names nothing of another project after a step, and neither do the tasks that it
starts. -/
theorem grows_serviceStep {t t' : Process} {a : Action} {started : List Process}
    (h : ServiceStep settings s t a s' t' started) :
    ∀ u ∈ t' :: started, t.scope.Grows u.scope s := by
  intro u hu
  cases h with
  | request h =>
    rcases List.mem_cons.mp hu with rfl | hu
    · exact .refl _ s
    · obtain ⟨schedule, hschedule, rfl⟩ := List.mem_map.mp hu
      apply grows_schedule
      cases h with
      | delegate | delegateRaw =>
        rw [List.mem_singleton.mp hschedule]
        exact .inr rfl
      | notify => exact .inl (List.mem_singleton.mp hschedule)
      | _ => cases hschedule
  | @uploadTask t _ _ _ _ h =>
    rcases List.mem_cons.mp hu with rfl | hu
    · exact .refl _ s
    · obtain ⟨schedule, hschedule, rfl⟩ := List.mem_map.mp hu
      apply grows_schedule
      cases h with
      | notify => exact .inl (List.mem_singleton.mp hschedule)
      | fail =>
        unfold UploadTask.errorCallback at hschedule
        split at hschedule
        case h_5 => cases hschedule
        all_goals
          rw [List.mem_singleton.mp hschedule]
          exact .inr rfl
      | _ => cases hschedule
  | post =>
    rcases List.mem_cons.mp hu with rfl | hu
    · exact .refl _ s
    · split_ifs at hu
      · rw [List.mem_singleton.mp hu]
        exact .of_project (List.mem_singleton_self _)
      · cases hu
  | check h =>
    obtain ⟨hnext, hstarted⟩ := grows_checkStep h
    rcases List.mem_cons.mp hu with rfl | hu
    · exact hnext
    · obtain ⟨runId, hrun, rfl⟩ := Option.map_eq_some_iff.mp (Option.mem_toList.mp hu)
      refine .of_subset (List.nil_subset _) (List.nil_subset _) ?_ (List.nil_subset _)
      exact List.cons_subset.mpr ⟨hstarted runId hrun, List.nil_subset _⟩
  | @runTask t t' _ _ _ h =>
    obtain ⟨hrun, hstarted⟩ := run_of_runTaskStep h
    have hsame : ∀ v : RunTask, v.run = t.run ∨ v.run = none →
        (Process.runTask t).scope.Grows (Process.runTask v).scope s := by
      intro v hv
      refine .of_subset (List.Subset.refl _) (List.Subset.refl _) ?_ (List.Subset.refl _)
      rcases hv with hv | hv
      · simp [Process.scope, hv]
      · simp [Process.scope, hv]
    rcases List.mem_cons.mp hu with rfl | hu
    · exact hsame t' (.inl hrun)
    · obtain ⟨v, hv, rfl⟩ := List.mem_map.mp hu
      exact hsame v (hstarted v hv)

end Started
end EntityService.Service
