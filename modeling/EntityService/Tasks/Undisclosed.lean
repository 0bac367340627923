import EntityService.Service.RunRows
import EntityService.Tasks.CleanupSteps
import EntityService.Views.ProjectDeletion

/-! What the run endpoints disclose of a project after its deletion has been accepted. They look at
the runs and at their results, and not at whether the project still exists. -/
namespace EntityService.Tasks.ProjectCleanup
open Lib Service Views

/-- A request for the result of some run of the project is never answered with one. -/
def NothingDisclosed (s : Storage) (projectId : ProjectId) : Prop :=
  ∀ runId token returnObjectStoreAddress r,
    runResultGet s projectId runId token returnObjectStoreAddress ≠ .ok r

/-- A row with a result of the run, in the tables that the type of the result asks for. -/
def HasResult (s : Storage) (projectId : ProjectId) (runId : RunId) : Prop :=
  match s.getResultType projectId with
  | .ok .groups => ∃ r ∈ s.runResults, r.runId = runId
  | .ok .similarityScores => ∃ r ∈ s.similarityScores, r.1 = runId
  | .ok .permutations => (∃ r ∈ s.permutations, r.run = runId) ∨
      ∃ r ∈ s.permutationMasks, r.project = projectId ∧ r.run = runId
  | .error _ => False

instance (s : Storage) (projectId : ProjectId) (runId : RunId) :
    Decidable (HasResult s projectId runId) := by
  unfold HasResult
  split <;> infer_instance

def Withheld (s : Storage) (projectId : ProjectId) : Prop :=
  ∀ e ∈ s.runs.entries, e.2.project = projectId → e.2.state = .completed →
    ¬ HasResult s projectId e.1

instance (s : Storage) (projectId : ProjectId) : Decidable (Withheld s projectId) :=
  inferInstanceAs (Decidable (∀ e ∈ s.runs.entries, _))

def Active (s : Storage) (projectId : ProjectId) : Prop :=
  ∃ row, s.db.findProject projectId = some row ∧ row.markedForDeletion = false

instance (s : Storage) (projectId : ProjectId) : Decidable (Active s projectId) :=
  decidable_of_iff ((s.db.findProject projectId).any fun row => row.markedForDeletion = false)
    (by simp [Active, Option.any_eq_true])

/-- The run of which the next transaction of a task stores a result. -/
def storesResult : RunTask → Option RunId
  | .aggregateComparisons _ runId true .pending => some runId
  | .saveAndPermute _ runId .pending => some runId
  | .permuteMappingData runId .pending => some runId
  | _ => none

/-- Once the project is marked, no run is completed that has a result, and no result is stored for
a completed run. -/
def withholds (projectId : ProjectId) (s : Storage) (t : SystemProcess) (a : SystemAction) : Bool :=
  if a.action = .proceed then
    match t with
    | .projectDelete r => r.projectId = projectId → r.phase = .authorized → Withheld s projectId
    | .service (.runTask (.markRunComplete runId .pending)) =>
      ¬ Active s projectId → s.RunOf projectId runId → ¬ HasResult s projectId runId
    | .service (.runTask t) => ¬ Active s projectId → ∀ runId ∈ storesResult t,
        ∀ row ∈ s.runs.get? runId, row.project = projectId → row.state ≠ .completed
    | _ => true
  else true

section Withheld
variable {s s' : Storage} {projectId : ProjectId} {runId : RunId}

theorem hasResult_of_runResultGet {token : Option Token} {returnObjectStoreAddress : Bool}
    {r : RunResult}
    (h : runResultGet s projectId runId token returnObjectStoreAddress = .ok r) :
    (∃ row, s.runs.get? runId = some row ∧ row.project = projectId ∧ row.state = .completed) ∧
      HasResult s projectId runId := by
  obtain ⟨hcompleted, h⟩ := runResultGet_eq_ok.mp h
  refine ⟨hcompleted, ?_⟩
  obtain ⟨resultType, htype, h⟩ := bind_eq_ok.mp h
  obtain ⟨tokenType, -, h⟩ := bind_eq_ok.mp h
  unfold HasResult
  rw [htype]
  cases resultType with
  | groups =>
    obtain ⟨result, hresult, -⟩ := bind_eq_ok.mp h
    obtain ⟨row, hrow, -⟩ := bind_eq_ok.mp hresult
    have hfind := orRaise_eq_ok.mp hrow
    exact ⟨row, List.mem_of_find?_eq_some hfind, by simpa using List.find?_some hfind⟩
  | similarityScores =>
    obtain ⟨filename, hfilename, -⟩ := bind_eq_ok.mp h
    unfold getSimilarityScoreResultFilename at hfilename
    split at hfilename
    case h_1 => cases hfilename
    case h_2 =>
      obtain ⟨file, hfile, -⟩ := bind_eq_ok.mp hfilename
      have hmem := List.mem_of_head? (orRaise_eq_ok.mp hfile)
      obtain ⟨row, hrow, -⟩ := List.mem_map.mp hmem
      obtain ⟨hrow, hrun⟩ := List.mem_filter.mp hrow
      exact ⟨row, hrow, of_decide_eq_true hrun⟩
  | permutations =>
    cases tokenType with
    | receiptToken =>
      obtain ⟨dpId, -, h⟩ := bind_eq_ok.mp h
      obtain ⟨perm, hperm, -⟩ := bind_eq_ok.mp h
      exact .inl ⟨_, getPermutationResult_eq_ok hperm, rfl⟩
    | resultToken =>
      obtain ⟨mask, hmask, -⟩ := bind_eq_ok.mp h
      obtain ⟨row, hrow, -⟩ := bind_eq_ok.mp hmask
      have hfind := orRaise_eq_ok.mp hrow
      exact .inr ⟨row, List.mem_of_find?_eq_some hfind, by simpa using List.find?_some hfind⟩

theorem Withheld.not_disclosed (h : Withheld s projectId) : NothingDisclosed s projectId := by
  intro runId token returnObjectStoreAddress r hresult
  obtain ⟨⟨row, hrow, hproject, hcompleted⟩, hresult⟩ := hasResult_of_runResultGet hresult
  exact h (runId, row) (Dict.get?_eq_some.mp hrow) hproject hcompleted hresult

/-- The results stay withheld when no run is completed and no result is stored. -/
theorem Withheld.mono (h : Withheld s projectId)
    (hruns : ∀ runId row', s'.runs.get? runId = some row' → row'.project = projectId →
      row'.state = .completed → HasResult s' projectId runId →
        (∃ row, s.runs.get? runId = some row ∧ row.project = projectId ∧ row.state = .completed) ∧
          HasResult s projectId runId) : Withheld s' projectId := by
  rintro ⟨runId, row'⟩ hrow' hproject hcompleted hresult
  obtain ⟨⟨row, hrow, hproject, hcompleted⟩, hresult⟩ :=
    hruns runId row' (Dict.get?_eq_some.mpr hrow') hproject hcompleted hresult
  exact h (runId, row) (Dict.get?_eq_some.mp hrow) hproject hcompleted hresult

theorem HasResult.congr (h : HasResult s' projectId runId)
    (htype : s'.getResultType projectId = s.getResultType projectId)
    (hresults : ∀ r ∈ s'.runResults, r.runId = runId → r ∈ s.runResults)
    (hscores : ∀ r ∈ s'.similarityScores, r.1 = runId → r ∈ s.similarityScores)
    (hpermutations : ∀ r ∈ s'.permutations, r.run = runId → r ∈ s.permutations)
    (hmasks : ∀ r ∈ s'.permutationMasks, r.run = runId → r ∈ s.permutationMasks) :
    HasResult s projectId runId := by
  unfold HasResult at h ⊢
  rw [htype] at h
  cases hr : s.getResultType projectId with
  | error e =>
    rw [hr] at h
    exact h
  | ok resultType =>
    rw [hr] at h
    cases resultType with
    | groups =>
      obtain ⟨r, hr, hrun⟩ := h
      exact ⟨r, hresults r hr hrun, hrun⟩
    | similarityScores =>
      obtain ⟨r, hr, hrun⟩ := h
      exact ⟨r, hscores r hr hrun, hrun⟩
    | permutations =>
      rcases h with ⟨r, hr, hrun⟩ | ⟨r, hr, hrun⟩
      · exact .inl ⟨r, hpermutations r hr hrun, hrun⟩
      · exact .inr ⟨r, hmasks r hr hrun.2, hrun⟩

/-- The columns that say whether the project is active and what its results are. -/
def SameColumns (s s' : Storage) (projectId : ProjectId) : Prop :=
  (s'.db.findProject projectId).map fixedColumns = (s.db.findProject projectId).map fixedColumns

theorem SameColumns.getResultType (h : SameColumns s s' projectId) :
    s'.getResultType projectId = s.getResultType projectId := by
  have htype : (s'.db.findProject projectId).map ProjectRow.resultType =
      (s.db.findProject projectId).map ProjectRow.resultType := by
    have hmap := congrArg (Option.map ProjectRow.resultType) h
    rw [Option.map_map, Option.map_map] at hmap
    exact hmap
  unfold Storage.getResultType
  cases hrow : s.db.findProject projectId with
  | none =>
    rw [hrow, Option.map_none, Option.map_eq_none_iff] at htype
    rw [htype]
  | some row =>
    rw [hrow, Option.map_some, Option.map_eq_some_iff] at htype
    obtain ⟨row', hrow', htype⟩ := htype
    rw [hrow']
    exact congrArg Except.ok htype

theorem SameColumns.active (h : SameColumns s s' projectId) (hactive : Active s' projectId) :
    Active s projectId := by
  obtain ⟨row', hrow', hunmarked⟩ := hactive
  unfold SameColumns at h
  rw [hrow', Option.map_some, eq_comm, Option.map_eq_some_iff] at h
  obtain ⟨row, hrow, hsame⟩ := h
  have hmark := congrArg ProjectRow.markedForDeletion hsame
  exact ⟨row, hrow, hmark.trans hunmarked⟩

theorem SameColumns.of_projects (h : s'.db.projects = s.db.projects) :
    SameColumns s s' projectId := by
  unfold SameColumns Database.findProject
  rw [h]

/-- The rows of the results of a run are added by the task that stores them. -/
theorem hasResult_of_stores {t : Process} (hstores : Stores s t s')
    (hne : ∀ task, t = .runTask task → storesResult task ≠ some runId)
    (h : HasResult s' projectId runId) : HasResult s projectId runId := by
  cases hstores with
  | @scores p r filename scores hrun =>
    refine h.congr rfl (fun _ hr _ => hr) ?_ (fun _ hr _ => hr) (fun _ hr _ => hr)
    intro row hrow hrun
    rcases List.mem_append.mp hrow with hrow | hrow
    · exact hrow
    · obtain rfl := List.mem_singleton.mp hrow
      exact absurd (congrArg some hrun) (hne _ rfl)
  | @groups p r groups hrun =>
    refine h.congr rfl ?_ (fun _ hr _ => hr) (fun _ hr _ => hr) (fun _ hr _ => hr)
    intro row hrow hrun
    rcases List.mem_append.mp hrow with hrow | hrow
    · exact hrow
    · obtain rfl := List.mem_singleton.mp hrow
      exact absurd (congrArg some hrun) (hne _ rfl)
  | @permutations r run rows mask hrun hrows =>
    refine h.congr rfl (fun _ hr _ => hr) (fun _ hr _ => hr) ?_ ?_
    · intro row hrow hrun
      rcases List.mem_append.mp hrow with hrow | hrow
      · exact hrow
      · exact absurd (congrArg some ((hrows row hrow).1.symm.trans hrun)) (hne _ rfl)
    · intro row hrow hrun
      rcases List.mem_append.mp hrow with hrow | hrow
      · exact hrow
      · obtain rfl := List.mem_singleton.mp hrow
        exact absurd (congrArg some hrun) (hne _ rfl)
  | upload hrows hinsert =>
    obtain ⟨u, -, hinsert⟩ := bind_eq_ok.mp hinsert
    cases hinsert
    exact h.congr rfl (fun _ hr _ => hr) (fun _ hr _ => hr) (fun _ hr _ => hr) fun _ hr _ => hr
  | nothing => exact h

theorem completed_of_serviceStep {settings : Settings} {server server' : Server} {t t' : Process}
    {a : Action} {started : List Process} {row' : RunRow}
    (hstep : ServiceStep settings server t a server' t' started)
    (hrow' : server'.runs.get? runId = some row') (hcompleted : row'.state = .completed) :
    ∃ row, server.runs.get? runId = some row ∧ row.project = row'.project ∧
      (row.state = .completed ∨ t = .runTask (.markRunComplete runId .pending) ∧ a = .proceed) := by
  have hrowStep := rowStep_of_step hstep runId
  rw [hrow'] at hrowStep
  generalize hrow : server.runs.get? runId = row at hrowStep
  cases hrowStep with
  | same | lock | release => exact ⟨_, rfl, rfl, .inl hcompleted⟩
  | post | begin | fail => cases hcompleted
  | change ht hphase hheld hupdated hholds =>
    unfold Check.change at hcompleted
    split_ifs at hcompleted <;> cases hcompleted
  | progress => exact ⟨_, rfl, rfl, .inl hcompleted⟩
  | @complete row ht hlocked hholds =>
    subst ht
    refine ⟨row, rfl, rfl, ?_⟩
    cases hstep with
    | runTask h =>
      cases h with
      | complete => exact .inr ⟨rfl, rfl⟩
      | fail =>
        rw [hrow] at hrow'
        exact .inl ((congrArg RunRow.state (Option.some.inj hrow')).trans hcompleted)

end Withheld

section Step
variable {settings : Settings} {s s' : Storage} {t t' : SystemProcess} {a : SystemAction}
  {started : List SystemProcess} {projectId : ProjectId}

theorem sameColumns_service {server : Server} {t t' : Process} {a : Action}
    {started : List Process} (hstep : ServiceStep settings s.toServer t a server t' started)
    (hstores : Stores { s with toServer := server } t s') : SameColumns s s' projectId := by
  have hstored : SameColumns { s with toServer := server } s' projectId :=
    .of_projects hstores.sameTables.projects
  exact hstored.trans ((tables_step hstep).1 projectId)

theorem withheld_service {server : Server} {t t' : Process} {started : List Process}
    (hok : withholds projectId s (.service t) a = true)
    (hstep : ServiceStep settings s.toServer t a.action server t' started)
    (hstores : Stores { s with toServer := server } t s')
    (hproceed : a.action ≠ .proceed → s' = { s with toServer := server })
    (hmarked : ¬ Active s projectId) (h : Withheld s projectId) : Withheld s' projectId := by
  refine h.mono fun runId row' hrow' hproject hcompleted hresult => ?_
  rw [hstores.sameTables.runs] at hrow'
  obtain ⟨row, hrow, hsame, hstate⟩ := completed_of_serviceStep hstep hrow' hcompleted
  have hbefore : (∀ task, t = .runTask task → a.action = .proceed →
      storesResult task ≠ some runId) → HasResult s projectId runId := by
    intro hne
    have hstored : HasResult { s with toServer := server } projectId runId := by
      by_cases ha : a.action = .proceed
      · exact hasResult_of_stores hstores (fun task ht => hne task ht ha) hresult
      · exact hproceed ha ▸ hresult
    have hcolumns : SameColumns s { s with toServer := server } projectId :=
      (tables_step hstep).1 projectId
    exact hstored.congr hcolumns.getResultType (fun _ hr _ => hr) (fun _ hr _ => hr)
      (fun _ hr _ => hr) (fun _ hr _ => hr)
  rw [← hsame] at hproject
  rcases hstate with hstate | ⟨rfl, ha⟩
  · refine ⟨⟨row, hrow, hproject, hstate⟩, hbefore ?_⟩
    rintro task rfl ha hstores
    have hcondition : ∀ r ∈ storesResult task, ∀ row ∈ s.runs.get? r, row.project = projectId →
        row.state ≠ .completed := by
      unfold withholds at hok
      rw [if_pos ha] at hok
      cases task with
      | markRunComplete r phase => cases phase <;> cases hstores
      | _ => exact of_decide_eq_true hok hmarked
    exact hcondition runId hstores row hrow hproject hstate
  · unfold withholds at hok
    rw [if_pos ha] at hok
    have hnone := of_decide_eq_true hok hmarked ⟨row, hrow, hproject⟩
    refine absurd (hbefore ?_) hnone
    rintro task ht - hstores
    cases ht
    cases hstores

theorem findProject_markProjectDeleted (db : Database) (projectId p : ProjectId) :
    (db.markProjectDeleted projectId).findProject p = (db.findProject p).map fun r =>
      if r.projectId = projectId then { r with markedForDeletion := true } else r := by
  have hsame : ((fun r : ProjectRow => decide (r.projectId = p)) ∘ fun r : ProjectRow =>
      if r.projectId = projectId then { r with markedForDeletion := true } else r) =
        fun r => decide (r.projectId = p) := by
    funext r
    by_cases hr : r.projectId = projectId <;> simp [hr]
  unfold Database.findProject Database.markProjectDeleted
  rw [List.find?_map, hsame]

theorem not_active_markProjectDeleted (s : Storage) (projectId : ProjectId) :
    ¬ Active (s.markProjectDeleted projectId) projectId := by
  rintro ⟨row, hrow, hunmarked⟩
  have hrow := (findProject_markProjectDeleted s.db projectId projectId).symm.trans hrow
  obtain ⟨r, hr, rfl⟩ := Option.map_eq_some_iff.mp hrow
  have hid : r.projectId = projectId := by simpa using List.find?_some hr
  rw [if_pos hid] at hunmarked
  cases hunmarked

theorem sameColumns_markProjectDeleted (s : Storage) {p : ProjectId} (h : p ≠ projectId) :
    SameColumns s (s.markProjectDeleted p) projectId := by
  refine congrArg (Option.map fixedColumns) ?_
  refine (findProject_markProjectDeleted s.db p projectId).trans ?_
  cases hrow : s.db.findProject projectId with
  | none => rfl
  | some r =>
    have hid : r.projectId = projectId := by simpa using List.find?_some hrow
    rw [Option.map_some, if_neg (hid ▸ h.symm)]

theorem withheld_markProjectDeleted {p : ProjectId} (h : Withheld s projectId) :
    Withheld (s.markProjectDeleted p) projectId := by
  refine h.mono fun runId row hrow hproject hcompleted hresult => ?_
  refine ⟨⟨row, hrow, hproject, hcompleted⟩, hresult.congr ?_ (fun _ hr _ => hr)
    (fun _ hr _ => hr) (fun _ hr _ => hr) (fun _ hr _ => hr)⟩
  unfold Storage.getResultType
  rw [Storage.markProjectDeleted, findProject_markProjectDeleted]
  cases s.db.findProject projectId with
  | none => rfl
  | some r => 
    rw [Option.map_some]
    split_ifs <;> rfl

theorem Withheld.of_rows (h : Withheld s projectId) (hsame : SameColumns s s' projectId)
    (hruns : s'.runs = s.runs) (hresults : s'.runResults ⊆ s.runResults)
    (hscores : s'.similarityScores = s.similarityScores)
    (hpermutations : s'.permutations ⊆ s.permutations)
    (hmasks : s'.permutationMasks ⊆ s.permutationMasks) : Withheld s' projectId := by
  refine h.mono fun runId row hrow hproject hcompleted hresult => ?_
  rw [hruns] at hrow
  exact ⟨⟨row, hrow, hproject, hcompleted⟩, hresult.congr hsame.getResultType
    (fun r hr _ => hresults hr) (fun r hr _ => hscores ▸ hr) (fun r hr _ => hpermutations hr)
    (fun r hr _ => hmasks hr)⟩

/-- A project that is marked stays so, and its results stay withheld. -/
theorem withheld_step (hok : withholds projectId s t a = true)
    (hstep : SystemStep settings s t a.action s' t' started)
    (h : ¬ Active s projectId → Withheld s projectId) :
    (Active s' projectId → Active s projectId) ∧
      (¬ Active s' projectId → Withheld s' projectId) := by
  -- everything but the mark leaves the columns of the project as they are
  have hkeep : SameColumns s s' projectId →
      (¬ Active s projectId → Withheld s projectId → Withheld s' projectId) →
        (Active s' projectId → Active s projectId) ∧
          (¬ Active s' projectId → Withheld s' projectId) := by
    intro hsame hwithheld
    refine ⟨hsame.active, fun hnot => ?_⟩
    have hmarked : ¬ Active s projectId :=
      fun hactive => hnot (SameColumns.active hsame.symm hactive)
    exact hwithheld hmarked (h hmarked)
  generalize ha : a.action = action at hstep
  cases hstep with
  | service hstep hkey hstores hproceed =>
    subst ha
    exact hkeep (sameColumns_service hstep hstores) fun hmarked hwithheld =>
      withheld_service hok hstep hstores hproceed hmarked hwithheld
  | @projectDelete r _ _ phase removes hstep =>
    cases hstep with
    | mark hphase =>
      by_cases hid : r.projectId = projectId
      · unfold withholds at hok
        rw [if_pos ha] at hok
        have hwithheld := of_decide_eq_true hok hid hphase
        subst hid
        exact ⟨fun hactive => absurd hactive (not_active_markProjectDeleted s r.projectId),
          fun _ => withheld_markProjectDeleted hwithheld⟩
      · exact hkeep (sameColumns_markProjectDeleted s hid) fun _ hwithheld =>
          withheld_markProjectDeleted hwithheld
    | _ => exact ⟨id, h⟩
  | removeProject hstep =>
    cases hstep with
    | commit =>
      exact hkeep rfl fun _ hwithheld => hwithheld.of_rows rfl rfl (List.diff_subset _ _) rfl
        (fun r hr => List.diff_subset _ _ (List.mem_of_mem_filter hr)) (List.diff_subset _ _)
    | setState =>
      exact hkeep rfl fun _ hwithheld => hwithheld.of_rows rfl rfl (fun _ hr => hr) rfl
        (fun _ hr => hr) fun _ hr => hr
    | _ => exact ⟨id, h⟩
  | deleteObjects =>
    exact hkeep rfl fun _ hwithheld => hwithheld.of_rows rfl rfl (fun _ hr => hr) rfl
      (fun _ hr => hr) fun _ hr => hr

theorem marked_step
    (hstep : SystemStep settings s t a.action s' t' started) {r' : DeleteRequest}
    (hr' : t' = .projectDelete r') (hid : r'.projectId = projectId)
    (hphase : r'.phase = .marked ∨ r'.phase = .accepted) :
    ¬ Active s' projectId ∨ ∃ r, t = .projectDelete r ∧ r.projectId = projectId ∧
      (r.phase = .marked ∨ r.phase = .accepted) := by
  generalize ha : a.action = action at hstep
  cases hstep with
  | @projectDelete r _ _ phase removes hstep =>
    cases hr'
    cases hstep with
    | check hcheck =>
      rcases hphase with hphase | hphase
      · exact absurd hphase hcheck.1
      · exact absurd hphase hcheck.2
    | mark =>
      subst hid
      exact .inl (not_active_markProjectDeleted s r.projectId)
    | accept hmarked => exact .inr ⟨r, rfl, hid, .inl hmarked⟩
    | fail =>
      rcases hphase with hphase | hphase <;> cases hphase
  | _ => cases hr'

end Step

/-- What is kept from the start of the requests to delete the project. -/
structure Hidden (projectId : ProjectId) (p : Pool Storage SystemProcess) : Prop where
  marked : ∀ r, .projectDelete r ∈ p.processes → r.projectId = projectId →
    r.phase = .marked ∨ r.phase = .accepted → ¬ Active p.shared projectId
  withheld : ¬ Active p.shared projectId → Withheld p.shared projectId

theorem hidden_of_reaches {settings : Settings} {projectId : ProjectId}
    {p₀ p : Pool Storage SystemProcess} (hinit : Hidden projectId p₀)
    (h : Pool.Reaches ((system settings).restrict (withholds projectId)) p₀ p) :
    Hidden projectId p := by
  refine h.invariant (I := Hidden projectId) hinit ?_
  rintro s before t after a s' t' started - hhidden hprogram
  obtain ⟨hok, hprogram⟩ := Program.restrict_eq_some.mp hprogram
  have hstep := systemStep_of_step hprogram
  obtain ⟨hactive, hwithheld⟩ := withheld_step hok hstep hhidden.withheld
  refine ⟨fun r hr => ?_, hwithheld⟩
  have hrequests : ∀ u ∈ before ++ t' :: after ++ started, ∀ r, u = .projectDelete r →
      r.projectId = projectId → r.phase = .marked ∨ r.phase = .accepted → ¬ Active s' projectId :=
    Pool.forall_step (P := fun u => ∀ r, u = .projectDelete r → r.projectId = projectId →
      r.phase = .marked ∨ r.phase = .accepted → ¬ Active s projectId)
    (fun u hu r hr => hhidden.marked r (hr ▸ hu))
    (fun u _ hmarked r hr hid hphase hactive' => hmarked r hr hid hphase (hactive hactive')) ?_ ?_
  · exact hrequests _ hr r rfl
  · intro hmarked r hr hid hphase hactive'
    rcases marked_step hstep hr hid hphase with hnot | ⟨r', hr', hid', hphase'⟩
    · exact hnot hactive'
    · exact hmarked r' hr' hid' hphase' (hactive hactive')
  · intro u hu r hr
    exact absurd (hr ▸ hu) (started_ne_projectDelete hstep r)

/-- Once a deletion is accepted nothing is disclosed, in a run in which no result of a completed run
is stored when the project is marked or afterwards. -/
theorem nothingDisclosed {settings : Settings} {projectId : ProjectId}
    {p₀ p : Pool Storage SystemProcess} (hactive : Active p₀.shared projectId)
    (hinit : ∀ r, .projectDelete r ∈ p₀.processes → r.projectId = projectId → r.phase = .received)
    (h : Pool.Reaches ((system settings).restrict (withholds projectId)) p₀ p)
    (haccepted : ∃ r, .projectDelete r ∈ p.processes ∧ r.projectId = projectId ∧
      r.phase = .accepted) : NothingDisclosed p.shared projectId := by
  have hinit : Hidden projectId p₀ := by
    refine ⟨fun r hr hid hphase => ?_, fun hnot => absurd hactive hnot⟩
    rw [hinit r hr hid] at hphase
    rcases hphase with hphase | hphase <;> cases hphase
  have hhidden := hidden_of_reaches hinit h
  obtain ⟨r, hr, hid, hphase⟩ := haccepted
  exact (hhidden.withheld (hhidden.marked r hr hid (.inr hphase))).not_disclosed

/-- A request to delete the project while a run is not completed. -/
def deletedEarly : Pool Storage SystemProcess where
  shared := { scoredProject with
    runs := Dict.empty.set "r" ⟨"p", .running, 2, .noMapping, false⟩
    similarityScores := [] }
  processes := [.projectDelete ⟨"p", some "t", .received⟩]

theorem nothingDisclosed_deletedEarly : ∃ p,
    Pool.Reaches ((system defaultSettings).restrict (withholds "p")) deletedEarly p ∧
      .projectDelete ⟨"p", some "t", .accepted⟩ ∈ p.processes ∧ NothingDisclosed p.shared "p" := by
  have hrun : (deletedEarly.run ((system defaultSettings).restrict (withholds "p"))
      (proceedAll [0, 0, 0, 0, 1])).any fun p =>
        .projectDelete ⟨"p", some "t", .accepted⟩ ∈ p.processes := by decide
  obtain ⟨p, hp, haccepted⟩ := (Option.any_eq_true _ _).mp hrun
  have haccepted := of_decide_eq_true haccepted
  have hreaches := Pool.reaches_of_run hp
  refine ⟨p, hreaches, haccepted, nothingDisclosed (by decide) ?_ hreaches
    ⟨_, haccepted, rfl, rfl⟩⟩
  intro r hr _
  cases List.mem_singleton.mp hr
  rfl

/-- A request to delete the project when the scores of a run are its result. -/
def deletedLate : Pool Storage SystemProcess where
  shared := scoredProject
  processes := [.projectDelete ⟨"p", some "t", .received⟩]

/-- When the project has been removed, its access token still gives credentials for the scores and
the scores themselves. -/
theorem not_nothingDisclosed_deletedLate : ∃ p,
    Pool.Reaches (system defaultSettings) deletedLate p ∧
    .projectDelete ⟨"p", some "t", .accepted⟩ ∈ p.processes ∧
    runResultGet p.shared "p" "r" (some "t") true =
      .ok { noResult with credentials := scoresName } ∧
    runResultGet p.shared "p" "r" (some "t") false =
      .ok { noResult with similarityScores := some [] } ∧ ¬ NothingDisclosed p.shared "p" := by
  have hrun : (deletedLate.run (system defaultSettings)
      (proceedAll [0, 0, 0, 0, 1, 1, 1, 1, 1, 1, 1, 1, 1, 2])).any fun p =>
        .projectDelete ⟨"p", some "t", .accepted⟩ ∈ p.processes ∧
        runResultGet p.shared "p" "r" (some "t") true =
          .ok { noResult with credentials := scoresName } ∧
        runResultGet p.shared "p" "r" (some "t") false =
          .ok { noResult with similarityScores := some [] } := by decide
  obtain ⟨p, hp, hdisclosed⟩ := (Option.any_eq_true _ _).mp hrun
  obtain ⟨haccepted, hcredentials, hscores⟩ := of_decide_eq_true hdisclosed
  exact ⟨p, Pool.reaches_of_run hp, haccepted, hcredentials, hscores, fun h => h _ _ _ _ hscores⟩

end EntityService.Tasks.ProjectCleanup
