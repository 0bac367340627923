import EntityService.Models.StableResults

/-! The result of a completed run has been stored, and the owners of the tokens are given it. -/
namespace EntityService.Models
open Lib Service Views Tasks.ProjectCleanup

/-- The rows that the result of a run is read from. -/
def ResultStored (s : Storage) (projectId : ProjectId) (runId : RunId) : ResultType → Prop
  | .groups => ∃ r ∈ s.runResults, r.runId = runId
  | .similarityScores => ∃ r ∈ s.similarityScores, r.1 = runId
  | .permutations => (∃ r ∈ s.permutationMasks, r.project = projectId ∧ r.run = runId) ∧
      ∀ d ∈ s.db.providerColumns, d.2.2 = projectId →
        ∃ r ∈ s.permutations, r.dp = d.1 ∧ r.run = runId

/-- What a task relies on: the type of the results of its project, and what the tasks before it have
stored. -/
def Relies (s : Storage) (projectId : ProjectId) (runId : RunId) (resultType : ResultType) :
    RunTask → Prop
  | .aggregateComparisons _ _ _ (.committed found) => found = resultType ∧
      (resultType = .similarityScores → ResultStored s projectId runId resultType)
  | .solverTask _ _ .pending => resultType ≠ .similarityScores
  | .saveAndPermute _ _ .pending => resultType ≠ .similarityScores
  | .saveAndPermute _ _ (.committed found) => found = resultType ∧
      resultType ≠ .similarityScores ∧
      (resultType = .groups → ResultStored s projectId runId resultType)
  | .permuteMappingData _ .pending => resultType = .permutations
  | .permuteMappingData _ (.committed _) => ResultStored s projectId runId resultType
  | .markRunComplete _ .pending => ResultStored s projectId runId resultType
  | _ => True

section Keeps
variable {projectId : ProjectId} {runId : RunId} {resultType : ResultType} {s s' : Storage}
  (hkeeps : KeepsResults projectId runId s s')
include hkeeps

theorem ResultStored.keeps (h : ResultStored s projectId runId resultType) :
    ResultStored s' projectId runId resultType := by
  cases resultType with
  | groups =>
    obtain ⟨r, hr, hrun⟩ := h
    have hmem := hkeeps.runResults.subset (List.mem_filter.mpr ⟨hr, decide_eq_true hrun⟩)
    exact ⟨r, List.mem_of_mem_filter hmem, hrun⟩
  | similarityScores =>
    obtain ⟨r, hr, hrun⟩ := h
    have hmem := hkeeps.similarityScores.subset (List.mem_filter.mpr ⟨hr, decide_eq_true hrun⟩)
    exact ⟨r, List.mem_of_mem_filter hmem, hrun⟩
  | permutations =>
    obtain ⟨⟨r, hr, hmask⟩, hpermutations⟩ := h
    have hmem := hkeeps.permutationMasks.subset (List.mem_filter.mpr ⟨hr, decide_eq_true hmask⟩)
    refine ⟨⟨r, List.mem_of_mem_filter hmem, hmask⟩, fun d hd hproject => ?_⟩
    obtain ⟨hd, hrows⟩ := hkeeps.permutations d hd hproject
    obtain ⟨p, hp, hperm⟩ := hpermutations d hd hproject
    have hmem := hrows.subset (List.mem_filter.mpr ⟨hp, decide_eq_true hperm⟩)
    exact ⟨p, List.mem_of_mem_filter hmem, hperm⟩

theorem Relies.keeps {t : RunTask} (h : Relies s projectId runId resultType t) :
    Relies s' projectId runId resultType t := by
  unfold Relies at h ⊢
  split
  case h_1 => exact ⟨h.1, fun htype => (h.2 htype).keeps hkeeps⟩
  case h_4 => exact ⟨h.1, h.2.1, fun htype => (h.2.2 htype).keeps hkeeps⟩
  case h_6 | h_7 => exact ResultStored.keeps hkeeps h
  case h_8 => trivial
  all_goals exact h

end Keeps

section Store
variable {w : Written} {s s' : Storage} {projectId : ProjectId} {runId : RunId}

/-- The permutations of the first two data providers. -/
theorem permutations_of_store
    (h : store w s (.runTask (.permuteMappingData runId .pending)) = .ok s') {row : RunRow}
    (hrow : s.runs.get? runId = some row) (hproject : row.project = projectId) :
    (∃ r ∈ s'.permutationMasks, r.project = projectId ∧ r.run = runId) ∧
      ∀ i < 2, ∃ dpId, (s.getDataproviderIds projectId)[i]? = some dpId ∧
        ∃ r ∈ s'.permutations, r.dp = dpId ∧ r.run = runId := by
  subst hproject
  unfold store at h
  obtain ⟨found, hfound, h⟩ := bind_eq_ok.mp h
  obtain rfl := Option.some.inj (hrow.symm.trans (orRaise_eq_ok.mp hfound))
  split at h
  case h_2 => cases h
  case h_1 s₁ u hpermute =>
    cases h
    obtain ⟨dpA, dpB, a, b, mask, hdpA, hdpB, -, -, rfl⟩ := permuteMappingData_ok hpermute
    refine ⟨⟨⟨row.project, runId, mask⟩, by simp, rfl, rfl⟩, fun i hi => ?_⟩
    interval_cases i
    · exact ⟨dpA, hdpA, ⟨dpA, runId, a⟩, by simp, rfl, rfl⟩
    · exact ⟨dpB, hdpB, ⟨dpB, runId, b⟩, by simp, rfl, rfl⟩

theorem scores_of_store
    (h : store w s (.runTask (.aggregateComparisons projectId runId true .pending)) = .ok s') :
    ∃ r ∈ s'.similarityScores, r.1 = runId := by
  obtain ⟨_, -, h⟩ := bind_eq_ok.mp h
  cases h
  exact ⟨(runId, w.filename), by simp, rfl⟩

theorem groups_of_store
    (h : store w s (.runTask (.saveAndPermute projectId runId .pending)) = .ok s') :
    ∃ r ∈ s'.runResults, r.runId = runId := by
  obtain ⟨_, -, h⟩ := bind_eq_ok.mp h
  cases h
  exact ⟨⟨runId, w.groups⟩, by simp, rfl⟩

end Store

section Tasks
variable {projectId : ProjectId} {runId : RunId} {resultType : ResultType} {w : Written}
  {s s' : Storage} {server : Server} {t t' : RunTask} {a : Service.Action} {started : List RunTask}

theorem relies_ended (t : RunTask) : Relies s projectId runId resultType t.ended := by
  cases t <;> trivial

theorem relies_errorCallback (t : RunTask) :
    ∀ u ∈ t.errorCallback, Relies s projectId runId resultType u := by
  intro u hu
  unfold RunTask.errorCallback at hu
  split at hu
  case h_3 => cases hu
  all_goals
    obtain rfl := List.mem_singleton.mp hu
    trivial

theorem relies_fail (t : RunTask) :
    ∀ u ∈ t.ended :: t.errorCallback, Relies s projectId runId resultType u :=
  List.forall_mem_cons.mpr ⟨relies_ended t, relies_errorCallback t⟩

section Kinds
variable {pid : ProjectId} {r : RunId}

theorem relies_prerunCheck {phase : PrerunPhase}
    (hstep : RunTaskStep s.toServer (.prerunCheck pid r phase) a server t' started) :
    ∀ u ∈ t' :: started, Relies s' projectId runId resultType u := by
  cases hstep with
  | start => exact List.forall_mem_cons.mpr ⟨trivial, List.forall_mem_singleton.mpr trivial⟩
  | fail => exact relies_fail _
  | _ => exact List.forall_mem_singleton.mpr trivial

theorem relies_createComparisonJobs {phase : TaskPhase Unit}
    (hstep : RunTaskStep s.toServer (.createComparisonJobs pid r phase) a server t' started) :
    ∀ u ∈ t' :: started, Relies s' projectId runId resultType u := by
  cases hstep with
  | schedule =>
    refine List.forall_mem_cons.mpr ⟨trivial, ?_⟩
    split_ifs
    · exact List.forall_mem_singleton.mpr trivial
    · exact List.forall_mem_singleton.mpr trivial
  | fail => exact relies_fail _

theorem relies_chord {headers : List HeaderPhase}
    (hstep : RunTaskStep s.toServer (.chord pid r headers) a server t' started) :
    ∀ u ∈ t' :: started, Relies s' projectId runId resultType u := by
  cases hstep with
  | header =>
    refine List.forall_mem_cons.mpr ⟨trivial, ?_⟩
    unfold chordSchedules
    split_ifs
    · exact List.forall_mem_singleton.mpr trivial
    · exact List.forall_mem_singleton.mpr trivial
    · exact nofun
  | fail => exact relies_fail _

/-- The scores are recorded before the next task is chosen by the type of the results. -/
theorem relies_aggregateComparisons {complete : Bool} {phase : TaskPhase ResultType}
    (hstep : RunTaskStep s.toServer (.aggregateComparisons projectId runId complete phase) a server
      t' started)
    (hstore : a = .proceed → store w { s with toServer := server }
      (.runTask (.aggregateComparisons projectId runId complete phase)) = .ok s')
    (hkeeps : KeepsResults projectId runId s s')
    (htype : ∀ project, s.db.findProject projectId = some project →
      project.resultType = resultType)
    (h : Relies s projectId runId resultType
      (.aggregateComparisons projectId runId complete phase)) :
    ∀ u ∈ t' :: started, Relies s' projectId runId resultType u := by
  cases hstep with
  | @saveScores _ _ project hproject hscores =>
    obtain rfl := htype project hproject
    refine List.forall_mem_singleton.mpr ⟨rfl, fun _ => ?_⟩
    rw [hscores]
    exact scores_of_store (hstore rfl)
  | @progress _ _ project hproject hscores =>
    obtain rfl := htype project hproject
    exact List.forall_mem_singleton.mpr ⟨rfl, fun hsame => absurd hsame hscores⟩
  | followAggregation =>
    obtain ⟨rfl, hstored⟩ := h
    refine List.forall_mem_cons.mpr ⟨trivial, ?_⟩
    split_ifs with hscores
    · exact List.forall_mem_singleton.mpr ((hstored hscores).keeps hkeeps)
    · exact List.forall_mem_singleton.mpr hscores
  | fail => exact relies_fail _

theorem relies_solverTask {phase : TaskPhase Unit}
    (hstep : RunTaskStep s.toServer (.solverTask pid r phase) a server t' started)
    (h : Relies s projectId runId resultType (.solverTask pid r phase)) :
    ∀ u ∈ t' :: started, Relies s' projectId runId resultType u := by
  cases hstep with
  | solve => exact List.forall_mem_cons.mpr ⟨trivial, List.forall_mem_singleton.mpr h⟩
  | overLimit => exact List.forall_mem_singleton.mpr trivial
  | fail => exact relies_fail _

/-- The groups are saved before the next task is chosen by the type of the results. -/
theorem relies_saveAndPermute {phase : TaskPhase ResultType}
    (hstep : RunTaskStep s.toServer (.saveAndPermute projectId runId phase) a server t' started)
    (hstore : a = .proceed → store w { s with toServer := server }
      (.runTask (.saveAndPermute projectId runId phase)) = .ok s')
    (hkeeps : KeepsResults projectId runId s s')
    (htype : ∀ project, s.db.findProject projectId = some project →
      project.resultType = resultType)
    (h : Relies s projectId runId resultType (.saveAndPermute projectId runId phase)) :
    ∀ u ∈ t' :: started, Relies s' projectId runId resultType u := by
  cases hstep with
  | @saveGroups _ _ project hproject =>
    obtain rfl := htype project hproject
    refine List.forall_mem_singleton.mpr ⟨rfl, h, fun hgroups => ?_⟩
    rw [hgroups]
    exact groups_of_store (hstore rfl)
  | @followGroups _ _ found =>
    obtain ⟨rfl, hscores, hstored⟩ := h
    refine List.forall_mem_cons.mpr ⟨trivial, ?_⟩
    split_ifs with hpermute
    · exact List.forall_mem_singleton.mpr hpermute
    · refine List.forall_mem_singleton.mpr ((hstored ?_).keeps hkeeps)
      cases found with
      | groups => rfl
      | similarityScores => exact absurd rfl hscores
      | permutations => exact absurd rfl hpermute
  | fail => exact relies_fail _

theorem relies_permuteMappingData {phase : TaskPhase Unit}
    (hstep : RunTaskStep s.toServer (.permuteMappingData runId phase) a server t' started)
    (hkeeps : KeepsResults projectId runId s s')
    (hpermutations : phase = .pending → a = .proceed →
      ResultStored s' projectId runId .permutations)
    (h : Relies s projectId runId resultType (.permuteMappingData runId phase)) :
    ∀ u ∈ t' :: started, Relies s' projectId runId resultType u := by
  cases hstep with
  | permute =>
    obtain rfl : resultType = .permutations := h
    exact List.forall_mem_singleton.mpr (hpermutations rfl rfl)
  | followPermutation =>
    have hstored := ResultStored.keeps hkeeps h
    exact List.forall_mem_cons.mpr ⟨trivial, List.forall_mem_singleton.mpr hstored⟩
  | fail => exact relies_fail _

theorem relies_markRunComplete {phase : TaskPhase Unit}
    (hstep : RunTaskStep s.toServer (.markRunComplete r phase) a server t' started) :
    ∀ u ∈ t' :: started, Relies s' projectId runId resultType u := by
  cases hstep with
  | fail => exact relies_fail _
  | _ => exact List.forall_mem_singleton.mpr trivial

theorem relies_runFailedHandler {r : Option RunId} {phase : TaskPhase Unit}
    (hstep : RunTaskStep s.toServer (.runFailedHandler r phase) a server t' started) :
    ∀ u ∈ t' :: started, Relies s' projectId runId resultType u := by
  cases hstep with
  | fail => exact relies_fail _
  | recordFailure => exact List.forall_mem_singleton.mpr trivial

end Kinds

/-- What a task of the run passes on is there for the tasks after it. -/
theorem relies_runTaskStep (hstep : RunTaskStep s.toServer t a server t' started)
    (hstore : a = .proceed → store w { s with toServer := server } (.runTask t) = .ok s')
    (hkeeps : KeepsResults projectId runId s s')
    (htype : ∀ project, s.db.findProject projectId = some project →
      project.resultType = resultType)
    (htold : ∀ q ∈ toldProject t, q = projectId) (hrun : t.run = some runId)
    (hpermutations : t = .permuteMappingData runId .pending → a = .proceed →
      ResultStored s' projectId runId .permutations)
    (h : Relies s projectId runId resultType t) :
    ∀ u ∈ t' :: started, Relies s' projectId runId resultType u := by
  cases t with
  | prerunCheck => exact relies_prerunCheck hstep
  | createComparisonJobs => exact relies_createComparisonJobs hstep
  | chord => exact relies_chord hstep
  | aggregateComparisons =>
    obtain rfl := htold _ rfl
    obtain rfl := Option.some.inj hrun
    exact relies_aggregateComparisons hstep hstore hkeeps htype h
  | solverTask => exact relies_solverTask hstep h
  | saveAndPermute =>
    obtain rfl := htold _ rfl
    obtain rfl := Option.some.inj hrun
    exact relies_saveAndPermute hstep hstore hkeeps htype h
  | permuteMappingData =>
    obtain rfl := Option.some.inj hrun
    refine relies_permuteMappingData hstep hkeeps (fun hphase => ?_) h
    subst hphase
    exact hpermutations rfl
  | markRunComplete => exact relies_markRunComplete hstep
  | runFailedHandler => exact relies_runFailedHandler hstep

end Tasks

/-- The first data providers that have uploaded data are all the providers of the project. -/
def FirstTwo (s : Storage) (projectId : ProjectId) : Prop :=
  ∀ dpA dpB, (s.getDataproviderIds projectId)[0]? = some dpA →
    (s.getDataproviderIds projectId)[1]? = some dpB →
      ∀ d ∈ s.db.providerColumns, d.2.2 = projectId → d.1 = dpA ∨ d.1 = dpB

section Parties
variable {r : Registry} {created : List Created} {c : Created} {projectId : ProjectId}

/-- A project whose results are permutations has two data providers. -/
theorem firstTwo_of_permutations (h : Recorded r created) (hc : c ∈ created)
    (hid : c.response.projectId = projectId) (hunmarked : ¬ Marked r projectId)
    (htype : r.getResultType projectId = .ok .permutations) : FirstTwo r.toStorage projectId := by
  subst hid
  intro dpA dpB hA hB
  obtain ⟨column, hregistered⟩ := h.registered c hc
  have hdescribes := hregistered.describes
  have hactive : column.markedForDeletion = false := by
    rw [← Bool.not_eq_true]
    exact fun hmarked => hunmarked ⟨column, hregistered.mem, hregistered.projectId, hmarked⟩
  have hpermutations : column.resultType = .permutations := by
    obtain ⟨resultType, hdocument, hfound⟩ := h.getResultType hc
    obtain rfl := Except.ok.inj (hfound.symm.trans htype)
    exact Option.some.inj (hdescribes.ofType.symm.trans hdocument)
  have htwo : c.response.updateTokens.length = 2 := by
    have hmulti := hdescribes.multiParty
    have hle := hdescribes.two_le
    have hparties := hregistered.parties
    rw [hpermutations] at hmulti
    have hnot : ¬ 2 < column.parties := fun hlt => by cases hmulti hlt
    omega
  have hlength : (r.db.providerColumns.filter
      fun d => d.2.2 = c.response.projectId).length = 2 := by
    have htokens := congrArg List.length (hregistered.unmarked hactive)
    rw [hregistered.projectId, tokensOf, List.length_map] at htokens
    omega
  obtain ⟨x, y, hxy⟩ := List.length_eq_two.mp hlength
  have hprovider : ∀ {dpId : DpId}, dpId ∈ r.getDataproviderIds c.response.projectId →
      dpId = x.1 ∨ dpId = y.1 := by
    intro dpId hmem
    rw [Storage.getDataproviderIds, (List.perm_insertionSort _ _).mem_iff] at hmem
    obtain ⟨d, hd, rfl⟩ := List.mem_map.mp hmem
    obtain ⟨hd, hproject⟩ := List.mem_filter.mp hd
    have hcolumn : (d.id, d.token, d.project) ∈ r.db.providerColumns.filter
        fun d => d.2.2 = c.response.projectId :=
      List.mem_filter.mpr ⟨List.mem_map_of_mem hd, decide_eq_true (of_decide_eq_true hproject).1⟩
    rw [hxy] at hcolumn
    rcases List.mem_cons.mp hcolumn with he | hcolumn
    · exact .inl (congrArg Prod.fst he)
    · exact .inr (congrArg Prod.fst (List.mem_singleton.mp hcolumn))
  have hne : dpA ≠ dpB := by
    rintro rfl
    have hnodup : (r.getDataproviderIds c.response.projectId).Nodup := by
      rw [Storage.getDataproviderIds, (List.perm_insertionSort _ _).nodup_iff]
      exact List.Nodup.sublist (List.filter_sublist.map _) h.uniqueProviders
    obtain ⟨hlt, hA⟩ := List.getElem?_eq_some_iff.mp hA
    obtain ⟨hlt', hB⟩ := List.getElem?_eq_some_iff.mp hB
    have hsame := (hnodup.getElem_inj_iff).mp (hA.trans hB.symm)
    omega
  intro d hd hproject
  have hmem : d ∈ r.db.providerColumns.filter fun d => d.2.2 = c.response.projectId :=
    List.mem_filter.mpr ⟨hd, decide_eq_true hproject⟩
  rw [hxy] at hmem
  have hd : d.1 = x.1 ∨ d.1 = y.1 := by
    rcases List.mem_cons.mp hmem with rfl | hmem
    · exact .inl rfl
    · exact .inr (congrArg Prod.fst (List.mem_singleton.mp hmem))
  rcases hprovider (List.mem_of_getElem? hA) with rfl | rfl
  · rcases hprovider (List.mem_of_getElem? hB) with rfl | rfl
    · exact absurd rfl hne
    · exact hd
  · rcases hprovider (List.mem_of_getElem? hB) with rfl | rfl
    · exact hd.symm
    · exact absurd rfl hne

end Parties

section Founded
variable {settings : Settings} {projectId : ProjectId} {runId : RunId} {resultType : ResultType}
  {s s' : Storage} {t t' : DeployedProcess} {before after started : List DeployedProcess}

/-- What is stored of a run agrees with how far it has come. -/
structure Founded (projectId : ProjectId) (runId : RunId) (resultType : ResultType)
    (pool : Pool Storage DeployedProcess) : Prop where
  tasks : ∀ t : RunTask, .system (.service (.runTask t)) ∈ pool.processes → t.run = some runId →
    Relies pool.shared projectId runId resultType t
  completed : ∀ row, pool.shared.runs.get? runId = some row → row.state = .completed →
    ResultStored pool.shared projectId runId resultType

inductive FromTask (s s' : Storage) (t : DeployedProcess) (u : RunTask) : Prop
  | checked {projectId : ProjectId} {runId : RunId} (hu : u = .prerunCheck projectId runId .pending)
  | passed {task task' : RunTask} {a : Service.Action} {server : Server} {tasks : List RunTask}
      {w : Written} (ht : t = .system (.service (.runTask task)))
      (hstep : RunTaskStep s.toServer task a server task' tasks)
      (hstore : a = .proceed → store w { s with toServer := server } (.runTask task) = .ok s')
      (hu : u ∈ task' :: tasks)

theorem fromTask_deployedStep (hstep : DeployedStep settings s t s' t' started) {u : RunTask}
    (hu : .system (.service (.runTask u)) ∈ t' :: started) : FromTask s s' t u := by
  cases hstep with
  | @system t t' a _ started hsystem =>
    cases t with
    | service p =>
      unfold system at hsystem
      obtain ⟨⟨s₁, p', started₁⟩, hservice, hsystem⟩ := Option.bind_eq_some_iff.mp hsystem
      cases hsystem
      obtain ⟨server, hstep, -, -, -, hstore⟩ := serviceStep_eq_some hservice
      generalize a.action = action at hstep hstore
      cases hstep with
      | runTask htask =>
        refine .passed rfl htask hstore ?_
        simpa using hu
      | check =>
        simp only [List.mem_cons, List.mem_map, reduceCtorEq, false_or,
          DeployedProcess.system.injEq, SystemProcess.service.injEq] at hu
        obtain ⟨_, ⟨v, hv, rfl⟩, heq⟩ := hu
        cases heq
        obtain ⟨r, -, heq⟩ := Option.map_eq_some_iff.mp (Option.mem_toList.mp hv)
        cases heq
        exact .checked rfl
      | request | uploadTask =>
        simp only [List.mem_cons, List.mem_map, reduceCtorEq, false_or,
          DeployedProcess.system.injEq, SystemProcess.service.injEq] at hu
        obtain ⟨_, ⟨v, ⟨schedule, -, rfl⟩, rfl⟩, heq⟩ := hu
        cases schedule <;> cases heq
      | post =>
        simp only [List.mem_cons, List.mem_map, reduceCtorEq, false_or,
          DeployedProcess.system.injEq, SystemProcess.service.injEq] at hu
        obtain ⟨_, ⟨v, hv, rfl⟩, heq⟩ := hu
        cases heq
        split_ifs at hv
        · cases List.mem_singleton.mp hv
        · cases hv
    | projectDelete =>
      have hdelete := systemStep_of_step hsystem
      generalize a.action = action at hdelete
      cases hdelete with
      | projectDelete => split_ifs at hu <;> simp at hu
    | removeProject =>
      have hremove := systemStep_of_step hsystem
      generalize a.action = action at hremove
      cases hremove with
      | removeProject hremove => cases hremove <;> simp at hu
    | deleteMinioObjects =>
      have hobjects := systemStep_of_step hsystem
      generalize a.action = action at hobjects
      cases hobjects with
      | deleteObjects => simp at hu
  | runDelete =>
    rcases List.mem_cons.mp hu with hu | hu
    · cases hu
    · obtain ⟨files, -, heq⟩ := Option.map_eq_some_iff.mp (Option.mem_toList.mp hu)
      cases heq

/-- There is a permutation for each data provider of a project that has two. -/
theorem permutations_stored {w : Written} {row : RunRow}
    (hkeeps : KeepsResults projectId runId s s') (hrow : s.runs.get? runId = some row)
    (hproject : row.project = projectId) (hparties : FirstTwo s projectId)
    (hstore : store w s (.runTask (.permuteMappingData runId .pending)) = .ok s') :
    ResultStored s' projectId runId .permutations := by
  obtain ⟨hmask, hfound⟩ := permutations_of_store hstore hrow hproject
  refine ⟨hmask, fun d hd hid => ?_⟩
  obtain ⟨dpA, hA, rA, hrA, hdpA, hrunA⟩ := hfound 0 Nat.zero_lt_two
  obtain ⟨dpB, hB, rB, hrB, hdpB, hrunB⟩ := hfound 1 Nat.one_lt_two
  have hold := (hkeeps.permutations d hd hid).1
  rcases hparties dpA dpB hA hB d hold hid with hdp | hdp
  · exact ⟨rA, hrA, hdpA.trans hdp.symm, hrunA⟩
  · exact ⟨rB, hrB, hdpB.trans hdp.symm, hrunB⟩

theorem Founded.step (h : Founded projectId runId resultType ⟨s, before ++ t :: after⟩)
    (hstep : DeployedStep settings s t s' t' started) (hkeeps : KeepsResults projectId runId s s')
    (htype : ∀ project, s.db.findProject projectId = some project →
      project.resultType = resultType)
    {row : RunRow} (hrow : s.runs.get? runId = some row) (hproject : row.project = projectId)
    (htold : ∀ task, t = .system (.service (.runTask task)) → task.run = some runId →
      ∀ q ∈ toldProject task, q = projectId)
    (hparties : resultType = .permutations → FirstTwo s projectId) :
    Founded projectId runId resultType ⟨s', before ++ t' :: after ++ started⟩ := by
  have hnext : ∀ u : RunTask, .system (.service (.runTask u)) ∈ t' :: started →
      u.run = some runId → Relies s' projectId runId resultType u := by
    intro u hu hrun
    cases fromTask_deployedStep hstep hu with
    | checked heq =>
      subst heq
      trivial
    | @passed task _ _ _ _ w ht htask hstore hmem =>
      subst ht
      have hsame : task.run = some runId := by
        obtain ⟨hnext, hstarted⟩ := run_of_runTaskStep htask
        rcases List.mem_cons.mp hmem with rfl | hmem
        · exact hnext.symm.trans hrun
        · rcases hstarted u hmem with hstarted | hnone
          · exact hstarted.symm.trans hrun
          · rw [hnone] at hrun
            cases hrun
      have hrelies := h.tasks task (List.mem_append_right _ List.mem_cons_self) hsame
      refine relies_runTaskStep htask hstore hkeeps htype (htold task rfl hsame) hsame ?_ hrelies
        u hmem
      rintro rfl rfl
      cases htask with
      | permute => exact permutations_stored hkeeps hrow hproject (hparties hrelies) (hstore rfl)
  constructor
  · intro u hu hrun
    simp only [List.mem_append, List.mem_cons] at hu
    rcases hu with (hu | hu | hu) | hu
    · exact (h.tasks u (List.mem_append_left _ hu) hrun).keeps hkeeps
    · exact hnext u (hu ▸ List.mem_cons_self) hrun
    · exact (h.tasks u (List.mem_append_right _ (List.mem_cons_of_mem _ hu)) hrun).keeps hkeeps
    · exact hnext u (List.mem_cons_of_mem _ hu) hrun
  · intro row' hrow' hcompleted
    cases fromRow_deployedStep hstep hrow' with
    | @kept row₀ hrow₀ _ hbefore =>
      rcases hbefore hcompleted with hbefore | ht
      · exact (h.completed row₀ hrow₀ hbefore).keeps hkeeps
      · have hrelies := h.tasks (.markRunComplete runId .pending)
          (ht ▸ List.mem_append_right _ List.mem_cons_self) rfl
        exact ResultStored.keeps hkeeps hrelies
    | inserted hnone =>
      rw [hrow] at hnone
      cases hnone

theorem mem_scope_of_run {t : RunTask} (h : t.run = some runId) :
    runId ∈ (DeployedProcess.system (.service (.runTask t))).scope.runs := by
  show runId ∈ t.run.toList
  rw [h]
  exact List.mem_singleton_self runId

/-- The run has just been inserted. No task knows of it yet. -/
theorem founded_inserted (hstep : DeployedStep settings s t s' t' started) {p : Post}
    (ht : t = .system (.service (.post p)))
    (hunknown : ∀ u ∈ before ++ t :: after, runId ∉ u.scope.runs)
    (hcreated : ∀ row, s'.runs.get? runId = some row → row.state = .created) :
    Founded projectId runId resultType ⟨s', before ++ t' :: after ++ started⟩ := by
  subst ht
  constructor
  · intro u hu hrun
    have hnew : .system (.service (.runTask u)) ∈ t' :: started →
        Relies s' projectId runId resultType u := by
      intro hu
      cases fromTask_deployedStep hstep hu with
      | checked heq =>
        subst heq
        trivial
      | passed htask => cases htask
    have hold := fun hu => hunknown (.system (.service (.runTask u))) hu (mem_scope_of_run hrun)
    simp only [List.mem_append, List.mem_cons] at hu hold
    rcases hu with (hu | hu | hu) | hu
    · exact absurd (.inl hu) hold
    · exact hnew (hu ▸ List.mem_cons_self)
    · exact absurd (.inr (.inr hu)) hold
    · exact hnew (List.mem_cons_of_mem _ hu)
  · intro row hrow hcompleted
    rw [hcreated row hrow] at hcompleted
    cases hcompleted

end Founded

section Reached
variable {settings : Settings} {d d' : Deployment} {projectId : ProjectId} {runId : RunId}
  {resultType : ResultType}

theorem getResultType_of_step (h : Deployment.Reaches settings .new d)
    (hstep : Deployment.Step settings d d')
    (hproject : projectId ∈ d.pool.shared.db.projects.map ProjectRow.projectId)
    (htype : d'.pool.shared.getResultType projectId = .ok resultType) :
    d.pool.shared.getResultType projectId = .ok resultType := by
  obtain ⟨c, hc, rfl⟩ := created_of_project h projectId hproject
  have hc' := created_subset (.single hstep) hc
  obtain ⟨before, hdocument, hbefore⟩ := (sound_of_reaches h).recorded.getResultType hc
  obtain ⟨after, hdocument', hafter⟩ :=
    (sound_of_reaches (h.tail hstep)).recorded.getResultType hc'
  obtain rfl := Except.ok.inj (hafter.symm.trans htype)
  obtain rfl := Option.some.inj (hdocument.symm.trans hdocument')
  exact hbefore

/-- What was there of a run before a step is there after it, and its project has results of the same
type. -/
theorem keeps_previous (hreaches : Deployment.Reaches settings .new d)
    (hstep : Deployment.Step settings d d') (hone : d'.pool.total (posts runId) ≤ 1)
    {row row' : RunRow} (hrow : d.pool.shared.runs.get? runId = some row)
    (hrow' : d'.pool.shared.runs.get? runId = some row')
    (hunmarked : ¬ Marked d.registry row.project)
    (htype : d'.pool.shared.getResultType row.project = .ok resultType) :
    KeepsResults row.project runId d.pool.shared d'.pool.shared ∧
      d.pool.shared.getResultType row.project = .ok resultType := by
  have hattributed := attributed_of_reaches hreaches
  have hmem := hattributed.projects hrow
  have hexists : d'.pool.shared.RunExists runId := Dict.mem_keys_iff.mpr ⟨row', hrow'⟩
  exact ⟨keeps_step hreaches hstep (hattributed.rows hrow) hmem hone hunmarked hexists,
    getResultType_of_step hreaches hstep hmem htype⟩

/-- No process knows of a run that is still to be inserted. -/
theorem unknown_of_pending (hreaches : Deployment.Reaches settings .new d)
    (hone : d.pool.total (posts runId) ≤ 1) {p : Post} (hid : p.runId = runId)
    (hphase : p.phase = .pending) (ht : .system (.service (.post p)) ∈ d.pool.processes) :
    ∀ u ∈ d.pool.processes, runId ∉ u.scope.runs := by
  intro u hu hscope
  have hpending : pendingPosts runId (.system (.service (.post p))) = 1 := by
    simp [pendingPosts, hid, hphase]
  obtain ⟨other, hposted, -⟩ := (attributed_of_reaches hreaches).named u hu runId hscope
  have hzero := hposted.drawn.pendingPosts_eq_zero hone ht
  omega

/-- A step of a process keeps what is stored of a run that was there before. -/
theorem Founded.run (hreaches : Deployment.Reaches settings .new d)
    (hone : d.pool.total (posts runId) ≤ 1) {row : RunRow}
    (hrow : d.pool.shared.runs.get? runId = some row)
    (hunmarked : ¬ Marked d.registry row.project)
    (htype : d.pool.shared.getResultType row.project = .ok resultType)
    {t t' : DeployedProcess} {before after started : List DeployedProcess} {s' : Storage}
    (hpool : d.pool = ⟨d.pool.shared, before ++ t :: after⟩)
    (hdeployed : DeployedStep settings d.pool.shared t s' t' started)
    (hkeeps : KeepsResults row.project runId d.pool.shared s')
    (h : Founded row.project runId resultType d.pool) :
    Founded row.project runId resultType ⟨s', before ++ t' :: after ++ started⟩ := by
  have hattributed := attributed_of_reaches hreaches
  have hlist : d.pool.processes = before ++ t :: after := congrArg Pool.processes hpool
  have ht : t ∈ d.pool.processes := hlist ▸ List.mem_append_right _ List.mem_cons_self
  obtain ⟨c, hc, hid⟩ := created_of_project hreaches row.project (hattributed.projects hrow)
  rw [hpool] at h
  refine h.step hdeployed hkeeps ?_ hrow rfl ?_ ?_
  · intro project hproject
    rw [Storage.getResultType, hproject] at htype
    exact Except.ok.inj htype
  · rintro task rfl htask q hq
    obtain ⟨other, hposted, hsame⟩ := hattributed.named _ ht runId (mem_scope_of_run htask)
    rw [hsame q hq]
    exact hposted.unique (hattributed.rows hrow) hone
  · rintro rfl
    exact firstTwo_of_permutations (sound_of_reaches hreaches).recorded hc hid hunmarked htype

theorem founded_of_reaches (h : Deployment.Reaches settings .new d)
    (hone : d.pool.total (posts runId) ≤ 1) {row : RunRow}
    (hrow : d.pool.shared.runs.get? runId = some row) (hunmarked : ¬ Marked d.registry row.project)
    (htype : d.pool.shared.getResultType row.project = .ok resultType) :
    Founded row.project runId resultType d.pool := by
  induction h generalizing row resultType with
  | refl => cases hrow
  | @tail d d' hreaches hstep ih =>
    have honeBefore := (total_posts_le runId hstep).trans hone
    have hsound := sound_of_reaches hreaches
    have hbefore : ¬ Marked d.registry row.project := fun hmarked =>
      hunmarked ((extends_step hsound hstep).marked _ hmarked)
    cases hstep with
    | @create codes data r result hpost =>
      have hcreated := hsound.recorded.postedOf codes data
      rw [hpost] at hcreated
      have hruns : r.runs = d.pool.shared.runs := by cases hcreated <;> rfl
      have hrowBefore := hruns ▸ hrow
      obtain ⟨hkeeps, htypeBefore⟩ :=
        keeps_previous hreaches (.create hpost) hone hrowBefore hrow hbefore htype
      have hfound := ih honeBefore hrowBefore hbefore htypeBefore
      refine ⟨fun t ht hrun => (hfound.tasks t ht hrun).keeps hkeeps, ?_⟩
      intro row' hrow' hcompleted
      exact (hfound.completed row' (hruns ▸ hrow') hcompleted).keeps hkeeps
    | arrive harriving =>
      have hfound := ih honeBefore hrow hbefore htype
      refine ⟨fun t ht hrun => ?_, hfound.completed⟩
      rcases List.mem_append.mp ht with ht | ht
      · exact hfound.tasks t ht hrun
      · rw [← List.mem_singleton.mp ht] at harriving
        cases harriving
    | run hrun =>
      obtain ⟨before, t, after, s', t', started, hpool, hdeployed, rfl⟩ :=
        Deployment.deployedStep_of_run hrun
      cases fromRow_deployedStep hdeployed hrow with
      | @kept row₀ hrow₀ hproject =>
        rw [hproject] at hbefore htype ⊢
        obtain ⟨hkeeps, htypeBefore⟩ :=
          keeps_previous hreaches (.run hrun) hone hrow₀ hrow hbefore htype
        have hfound := ih honeBefore hrow₀ hbefore htypeBefore
        exact hfound.run hreaches honeBefore hrow₀ hbefore htypeBefore hpool hdeployed hkeeps
      | @inserted p _ hcreated _ ht hid _ hphase =>
        have hlist : d.pool.processes = before ++ t :: after := congrArg Pool.processes hpool
        have hmem : .system (.service (.post p)) ∈ d.pool.processes :=
          hlist ▸ ht ▸ List.mem_append_right _ List.mem_cons_self
        have hunknown := unknown_of_pending hreaches honeBefore hid hphase hmem
        refine founded_inserted hdeployed ht (hlist ▸ hunknown) fun row' hrow' => ?_
        obtain rfl := Option.some.inj (hrow.symm.trans hrow')
        exact hcreated

end Reached

/-- The only element of the result is that of its type. -/
def GivenAs : ResultType → RunResult → Prop
  | .groups, r => ∃ groups, r = { noResult with groups := some groups }
  | .similarityScores, r => ∃ filename, r = { noResult with credentials := some filename }
  | .permutations, r => ∃ mask, r = { noResult with mask := some mask }

/-- The holder of the access token is given the result of the run, and a data provider is given its
permutation. Only the data of a file of scores is read from the bucket. -/
structure ResultGiven (c : Created) (runId : RunId) (s : Storage) : Prop where
  analyst : ∃ resultType, s.getResultType c.response.projectId = .ok resultType ∧
    ∀ {returnObjectStoreAddress}, returnObjectStoreAddress = true ∨
        resultType ≠ .similarityScores →
      ∃ result, runResultGet s c.response.projectId runId (some c.response.resultToken)
        returnObjectStoreAddress = .ok result ∧ GivenAs resultType result
  provider : s.getResultType c.response.projectId = .ok .permutations →
    ∀ {token dpId}, token ≠ some c.response.resultToken →
      s.selectDataproviderId c.response.projectId token = some dpId →
        ∀ returnObjectStoreAddress, ∃ perm rows,
          runResultGet s c.response.projectId runId token returnObjectStoreAddress =
            .ok { noResult with permutation := some perm, rows := rows }

section Given
variable {s : Storage} {projectId : ProjectId} {runId : RunId}

theorem getRunResult_of_stored (h : ResultStored s projectId runId .groups) :
    ∃ groups, s.getRunResult runId = .ok groups := by
  obtain ⟨r, hr, hrun⟩ := h
  have hsome : (s.runResults.find? fun r => r.runId = runId).isSome :=
    List.find?_isSome.mpr ⟨r, hr, decide_eq_true hrun⟩
  obtain ⟨x, hx⟩ := Option.isSome_iff_exists.mp hsome
  refine ⟨x.result, ?_⟩
  rw [Storage.getRunResult, hx]
  rfl

theorem getSimilarityScoreResultFilename_of_stored
    (h : ResultStored s projectId runId .similarityScores) :
    ∃ filename, getSimilarityScoreResultFilename s runId = .ok filename := by
  obtain ⟨r, hr, hrun⟩ := h
  have hmem : String.ofList (charPad 70 r.2.toList) ∈ s.similarityFiles runId :=
    List.mem_map.mpr ⟨r, List.mem_filter.mpr ⟨hr, decide_eq_true hrun⟩, rfl⟩
  obtain ⟨file, hfile⟩ := Option.isSome_iff_exists.mp
    (List.isSome_head?.mpr (List.ne_nil_of_mem hmem))
  refine ⟨String.ofList (strip file.toList), ?_⟩
  rw [getSimilarityScoreResultFilename, Storage.getSimilarityScoresFilename, hfile]
  rfl

theorem getPermutationUnencryptedMask_of_stored
    (h : ResultStored s projectId runId .permutations) :
    ∃ mask, s.getPermutationUnencryptedMask projectId runId = .ok mask := by
  obtain ⟨⟨r, hr, hmask⟩, -⟩ := h
  have hsome : (s.permutationMasks.find? fun r => r.project = projectId ∧ r.run = runId).isSome :=
    List.find?_isSome.mpr ⟨r, hr, decide_eq_true hmask⟩
  obtain ⟨x, hx⟩ := Option.isSome_iff_exists.mp hsome
  refine ⟨x.raw, ?_⟩
  rw [Storage.getPermutationUnencryptedMask, hx]
  rfl

theorem getPermutationResult_of_stored (h : ResultStored s projectId runId .permutations)
    {d : DataproviderRow} (hd : d ∈ s.db.dataproviders) (hproject : d.project = projectId) :
    ∃ perm, s.getPermutationResult runId d.id = .ok perm := by
  obtain ⟨r, hr, hperm⟩ := h.2 _ (List.mem_map_of_mem hd) hproject
  have hsome : (s.permutations.find? fun r => r.dp = d.id ∧ r.run = runId).isSome :=
    List.find?_isSome.mpr ⟨r, hr, decide_eq_true hperm⟩
  obtain ⟨x, hx⟩ := Option.isSome_iff_exists.mp hsome
  refine ⟨x.permutation, ?_⟩
  rw [Storage.getPermutationResult, hx]
  rfl

/-- What the holder of the access token is given. -/
theorem getResult_of_stored {resultType : ResultType}
    (h : ResultStored s projectId runId resultType)
    (htype : s.getResultType projectId = .ok resultType) {token : Option Token}
    (hauth : s.checkProjectAuth projectId token = true) {returnObjectStoreAddress : Bool}
    (haddress : returnObjectStoreAddress = true ∨ resultType ≠ .similarityScores) :
    ∃ result, getResult s projectId runId token returnObjectStoreAddress = .ok result ∧
      GivenAs resultType result := by
  unfold getResult
  rw [htype, ok_bind, tokenType_of_checkProjectAuth htype hauth, ok_bind]
  cases resultType with
  | groups =>
    obtain ⟨groups, hgroups⟩ := getRunResult_of_stored h
    dsimp only
    rw [hgroups]
    exact ⟨_, rfl, groups, rfl⟩
  | similarityScores =>
    obtain ⟨filename, hname⟩ := getSimilarityScoreResultFilename_of_stored h
    have htrue : returnObjectStoreAddress = true := haddress.resolve_right fun hne => hne rfl
    subst htrue
    dsimp only
    rw [hname]
    exact ⟨_, rfl, filename, rfl⟩
  | permutations =>
    obtain ⟨mask, hmask⟩ := getPermutationUnencryptedMask_of_stored h
    dsimp only [getPermutationsResult]
    rw [hmask]
    exact ⟨_, rfl, mask, rfl⟩

/-- What a data provider is given. -/
theorem getResult_of_stored_permutation (h : ResultStored s projectId runId .permutations)
    (htype : s.getResultType projectId = .ok .permutations) {token : Option Token}
    (hauth : ¬ s.checkProjectAuth projectId token = true) {dpId : DpId}
    (hselect : s.selectDataproviderId projectId token = some dpId)
    (returnObjectStoreAddress : Bool) : ∃ perm rows,
      getResult s projectId runId token returnObjectStoreAddress =
        .ok { noResult with permutation := some perm, rows := rows } := by
  have htoken := tokenType_of_selectDataproviderId htype hauth hselect
  obtain ⟨provider, hprovider, rfl, hid, -⟩ := selectDataproviderId_eq_some hselect
  obtain ⟨perm, hperm⟩ := getPermutationResult_of_stored h hprovider hid
  refine ⟨perm, s.getSmallerDatasetSizeForProject projectId, ?_⟩
  rw [getResult, htype, ok_bind, htoken, ok_bind]
  dsimp only [getPermutationsResult]
  rw [hselect, orRaise, Option.elim_some, ok_bind, hperm]
  rfl

variable {settings : Settings} {d : Deployment} {c : Created}

/-- A completed run has a result: it can be downloaded with the access token, and if it is a
permutation with the token of an upload of each data provider, unless the deletion of the project
has been requested. -/
theorem resultGiven_of_completed (h : Deployment.Reaches settings .new d) (hc : c ∈ d.created)
    (hone : d.pool.total (posts runId) ≤ 1)
    (hactive : d.pool.shared.db.ProjectExists c.response.projectId) {row : RunRow}
    (hrow : d.pool.shared.runs.get? runId = some row)
    (hproject : row.project = c.response.projectId) (hcompleted : row.state = .completed) :
    ResultGiven c runId d.pool.shared := by
  have hrecorded := (sound_of_reaches h).recorded
  obtain ⟨resultType, -, htype⟩ := hrecorded.getResultType hc
  have hunmarked : ¬ Marked d.registry c.response.projectId := fun hmarked =>
    not_exists_of_marked hrecorded.uniqueColumns hmarked hactive
  have hfounded := founded_of_reaches h hone hrow (hproject ▸ hunmarked) (hproject ▸ htype)
  rw [hproject] at hfounded
  have hstored := hfounded.completed row hrow hcompleted
  constructor
  · refine ⟨resultType, htype, fun {returnObjectStoreAddress} haddress => ?_⟩
    have hauth := (hrecorded.checkProjectAuth_iff hc (some c.response.resultToken)).mpr rfl
    obtain ⟨result, hresult, hgiven⟩ := getResult_of_stored hstored htype hauth haddress
    exact ⟨result, runResultGet_eq_ok.mpr ⟨⟨row, hrow, hproject, hcompleted⟩, hresult⟩, hgiven⟩
  · intro hpermutations token dpId hother hselect returnObjectStoreAddress
    obtain rfl := Except.ok.inj (htype.symm.trans hpermutations)
    have hauth := fun hauth => hother ((hrecorded.checkProjectAuth_iff hc token).mp hauth)
    obtain ⟨perm, rows, hresult⟩ :=
      getResult_of_stored_permutation hstored htype hauth hselect returnObjectStoreAddress
    exact ⟨perm, rows,
      runResultGet_eq_ok.mpr ⟨⟨row, hrow, hproject, hcompleted⟩, hresult⟩⟩

/-- The run of two small datasets, of which each data provider is given a permutation. -/
theorem resultGiven_matchedUploads : ∃ pool,
    matchedUploads.pool.run (deployed Tasks.defaultSettings) matchedSchedule = some pool ∧
      pool.shared.getResultType "p" = .ok .permutations ∧
      pool.shared.selectDataproviderId "p" (some "y") = some 2 ∧
      ResultGiven ⟨permutationsDocument, ⟨"p", ["p", "pu"], "pr"⟩⟩ "r" pool.shared := by
  have hrun : (matchedUploads.pool.run (deployed Tasks.defaultSettings) matchedSchedule).any
      fun pool => pool.total (posts "r") ≤ 1 ∧
        pool.shared.getResultType "p" = .ok .permutations ∧
        pool.shared.selectDataproviderId "p" (some "y") = some 2 ∧
        pool.shared.runs.get? "r" = some ⟨"p", .completed, 3, .default, false⟩ ∧
        pool.shared.db.projects.any fun row =>
          row.projectId = "p" ∧ row.markedForDeletion = false := by decide +kernel
  obtain ⟨pool, hpool, hrun⟩ := (Option.any_eq_true _ _).mp hrun
  obtain ⟨hone, htype, hselect, hrow, hactive⟩ := of_decide_eq_true hrun
  exact ⟨pool, hpool, htype, hselect, resultGiven_of_completed (reaches_matchedSchedule hpool)
    created_matchedUploads hone (projectExists_of_any hactive) hrow rfl rfl⟩

end Given
end EntityService.Models
