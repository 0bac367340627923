import EntityService.Service.StartedOnce

/-! The tasks that lead a run to its completion. Each run has at most one of them at a time. A
failure of a task leaves other tasks behind, which will record it. -/
namespace EntityService.Service
open Lib Cache

/-- How far a run has come when a task is to be executed. -/
inductive Milestone
  | queued | comparing | aggregated | completed
deriving DecidableEq

/-- What the row of a run says at a milestone. -/
def Milestone.Reached : Milestone → RunRow → Prop
  | .queued, row => row.state = .queued ∧ row.stage = 2
  | .comparing, row => row.state = .running ∧ row.stage = 2
  | .aggregated, row => row.state = .running ∧ row.stage = row.type.stages
  | .completed, row => row.state = .completed ∧ row.stage = row.type.stages

/-- The chord will not give all its results to its body. -/
def HeaderPhase.Spoiled : HeaderPhase → Bool
  | .overLimit | .returned false | .failed => true
  | _ => false

/-- The milestone and the run of a task that leads to the completion of the run. -/
def RunTask.milestone : RunTask → Option (Milestone × RunId)
  | .prerunCheck _ _ .ended => none
  | .prerunCheck _ runId .started => some (.comparing, runId)
  | .prerunCheck _ runId _ => some (.queued, runId)
  | .createComparisonJobs _ _ .ended => none
  | .createComparisonJobs _ runId _ => some (.comparing, runId)
  | .chord _ runId headers =>
    if headers.any HeaderPhase.Spoiled ∨ headers.all HeaderPhase.hasReturned then none
    else some (.comparing, runId)
  | .aggregateComparisons _ runId true .pending => some (.comparing, runId)
  | .aggregateComparisons _ runId true (.committed _) => some (.aggregated, runId)
  | .aggregateComparisons _ _ _ _ => none
  | .solverTask _ _ .ended => none
  | .solverTask _ runId _ => some (.aggregated, runId)
  | .saveAndPermute _ _ .ended => none
  | .saveAndPermute _ runId _ => some (.aggregated, runId)
  | .permuteMappingData _ .ended => none
  | .permuteMappingData runId _ => some (.aggregated, runId)
  | .markRunComplete _ .ended => none
  | .markRunComplete runId .pending => some (.aggregated, runId)
  | .markRunComplete runId (.committed _) => some (.completed, runId)
  | .runFailedHandler _ _ => none

/-- How often a process leads a run from a milestone to its completion. -/
def leadsTo (m : Milestone) (runId : RunId) : Process → ℕ
  | .check c =>
    match c.phase with
    | .committed newRuns => if m = .queued then newRuns.count runId else 0
    | _ => 0
  | .runTask t => if t.milestone = some (m, runId) then 1 else 0
  | _ => 0

/-- The process shows that the run cannot be completed. -/
def spoils (runId : RunId) : Process → ℕ
  | .runTask (.chord _ r headers) =>
    if r = runId ∧ headers.any HeaderPhase.Spoiled = true then 1 else 0
  | .runTask (.aggregateComparisons _ r false _) => if r = runId then 1 else 0
  | .runTask (.runFailedHandler r _) => if r = some runId then 1 else 0
  | _ => 0

/-- The process, or one that it will start, will record the failure of the run. -/
def recovers (runId : RunId) : Process → ℕ
  | .runTask (.chord _ r headers) =>
    if r = runId ∧ headers.any HeaderPhase.Spoiled = true ∧ .failed ∉ headers ∧
      headers.all HeaderPhase.hasReturned = false then 1 else 0
  | .runTask (.aggregateComparisons _ r false .pending) => if r = runId then 1 else 0
  | .runTask (.runFailedHandler r .pending) => if r = some runId then 1 else 0
  | _ => 0

def stepTotal (f : Process → ℕ) (t' : Process) (started : List Process) : ℕ :=
  f t' + (started.map f).sum

def RunRow.unlocked (row : RunRow) : RunRow := { row with locked := false }

/-- The row of the run is changed like this, its lock aside. -/
def ChangesRun (runId : RunId) (s s' : Server) (f : RunRow → RunRow) : Prop :=
  (s'.runs.get? runId).map RunRow.unlocked =
    (s.runs.get? runId).map fun row => (f row).unlocked

/-- How a task ends without a successor and without a record of it. -/
inductive Lost (runId : RunId) (s : Server) (t : Process) (a : Action) : Prop
  | raised {task : RunTask} (ha : a = .raise) (ht : t = .runTask task)
      (haggregate : ∀ projectId r complete phase,
        task ≠ .aggregateComparisons projectId r complete phase)
  | unscheduled {c : Check} {newRuns : List RunId} (ha : a = .raise) (ht : t = .check c)
      (hphase : c.phase = .committed newRuns)
  | cached {projectId : ProjectId} (ht : t = .runTask (.prerunCheck projectId runId .pending))
      (hcached : isRunMissing (s.hash runId) = false)
  | skipped {projectId : ProjectId} {row : RunRow} (ha : a = .proceed)
      (ht : t = .runTask (.prerunCheck projectId runId .missing))
      (hrow : s.runs.get? runId = some row)
      (hstarted : row.locked ∨ row.state ∈ [RunState.running, .completed, .error])
  | finished (ht : t = .runTask (.markRunComplete runId (.committed ())))

/-- What a step does to a run and to the tasks that lead it to its completion. -/
inductive TokenStep (runId : RunId) (s : Server) (t : Process) (a : Action) (s' : Server)
    (t' : Process) (started : List Process) : Prop
  | keep (hrow : ChangesRun runId s s' id)
      (hleads : ∀ m, stepTotal (leadsTo m runId) t' started = leadsTo m runId t)
      (hspoils : stepTotal (spoils runId) t' started = spoils runId t)
      (hrecovers : stepTotal (recovers runId) t' started = recovers runId t)
  | lose (hrow : ChangesRun runId s s' id)
      (hleads : ∀ m, stepTotal (leadsTo m runId) t' started = 0)
      (hspoils : stepTotal (spoils runId) t' started = spoils runId t)
      (hlost : Lost runId s t a)
  | spoil (hrow : ChangesRun runId s s' id)
      (hbefore : 0 < leadsTo .comparing runId t + leadsTo .aggregated runId t + spoils runId t)
      (hleads : ∀ m, stepTotal (leadsTo m runId) t' started = 0)
      (hrecovers : leadsTo .comparing runId t + leadsTo .aggregated runId t + recovers runId t ≤
        stepTotal (recovers runId) t' started)
  | post {p : Post} {project : ProjectRow} (ht : t = .post p) (hid : p.runId = runId)
      (hproject : s.db.findProject p.projectId = some project)
      (hnone : s.runs.get? runId = none)
      (hrow : s'.runs.get? runId = some ⟨p.projectId, .created, 1,
        if project.resultType = .similarityScores then .noMapping else .default, false⟩)
      (hleads : ∀ m, stepTotal (leadsTo m runId) t' started = 0)
      (hspoils : stepTotal (spoils runId) t' started = 0)
  | change {c : Check} {check : SizeCheck} {held updated : List RunId} (ht : t = .check c)
      (hphase : c.phase = .updating check [] held updated) (hheld : runId ∈ held)
      (hupdated : runId ∈ updated) (hrow : ChangesRun runId s s' (Check.change check))
      (hleads : ∀ m, stepTotal (leadsTo m runId) t' started =
        if m = .queued then (Check.newRuns check updated).count runId else 0)
      (hspoils : stepTotal (spoils runId) t' started = 0)
  | begin (hbefore : leadsTo .queued runId t = 1) (hrow : ChangesRun runId s s' markRunning)
      (hleads : ∀ m, stepTotal (leadsTo m runId) t' started = if m = .comparing then 1 else 0)
      (hspoils : stepTotal (spoils runId) t' started = 0)
  | aggregate {projectId : ProjectId} {project : ProjectRow}
      (ht : t = .runTask (.aggregateComparisons projectId runId true .pending))
      (hproject : s.db.findProject projectId = some project)
      (hrow : ChangesRun runId s s'
        (if project.resultType = .similarityScores then id else progressStage))
      (hleads : ∀ m, stepTotal (leadsTo m runId) t' started = if m = .aggregated then 1 else 0)
      (hspoils : stepTotal (spoils runId) t' started = 0)
  | complete (hbefore : leadsTo .aggregated runId t = 1)
      (hrow : ChangesRun runId s s' markComplete)
      (hleads : ∀ m, stepTotal (leadsTo m runId) t' started = if m = .completed then 1 else 0)
      (hspoils : stepTotal (spoils runId) t' started = 0)
  | fail (hbefore : 0 < leadsTo .comparing runId t + leadsTo .aggregated runId t + spoils runId t)
      (hrow : ChangesRun runId s s' markFailure)
      (hleads : ∀ m, stepTotal (leadsTo m runId) t' started = 0)

theorem unlocked_eq {row row' : RunRow} (h : row'.unlocked = row.unlocked) :
    row'.project = row.project ∧ row'.state = row.state ∧ row'.stage = row.stage ∧
      row'.type = row.type := by
  cases row
  cases row'
  simpa [RunRow.unlocked] using h

theorem ChangesRun.exists {runId : RunId} {s s' : Server} {f : RunRow → RunRow} {row : RunRow}
    (h : ChangesRun runId s s' f) (hrow : s.runs.get? runId = some row) :
    ∃ row', s'.runs.get? runId = some row' ∧ row'.unlocked = (f row).unlocked := by
  unfold ChangesRun at h
  rw [hrow, Option.map_some, Option.map_eq_some_iff] at h
  exact h

/-- A row after the step comes from one before it. -/
theorem ChangesRun.exists_before {runId : RunId} {s s' : Server} {f : RunRow → RunRow}
    {row' : RunRow} (h : ChangesRun runId s s' f) (hrow' : s'.runs.get? runId = some row') :
    ∃ row, s.runs.get? runId = some row ∧ row'.unlocked = (f row).unlocked := by
  unfold ChangesRun at h
  rw [hrow', Option.map_some, eq_comm, Option.map_eq_some_iff] at h
  obtain ⟨row, hrow, halike⟩ := h
  exact ⟨row, hrow, halike.symm⟩

section Changes
variable {s s' : Server} {runId r : RunId} {f : RunRow → RunRow}

theorem ChangesRun.of_eq (h : s'.runs = s.runs) : ChangesRun runId s s' id := by
  unfold ChangesRun
  rw [h]
  rfl

theorem ChangesRun.of_modifyRun (hs' : s'.runs = (s.modifyRun runId f).runs) :
    ChangesRun runId s s' f := by
  unfold ChangesRun
  rw [hs', get?_modifyRun, if_pos rfl, Option.map_map]
  rfl

theorem ChangesRun.of_modifyRun_ne (hs' : s'.runs = (s.modifyRun r f).runs) (hr : r ≠ runId) :
    ChangesRun runId s s' id := by
  unfold ChangesRun
  rw [hs', get?_modifyRun, if_neg (Ne.symm hr)]
  rfl

theorem ChangesRun.of_lockRun (hs' : s'.runs = (s.lockRun r).runs) : ChangesRun runId s s' id := by
  by_cases hr : r = runId
  · subst hr
    have hchange := ChangesRun.of_modifyRun hs'
    exact hchange
  · exact .of_modifyRun_ne hs' hr

variable {held updated : List RunId}

theorem ChangesRun.of_release (hs' : s'.runs = (s.release held updated f).runs)
    (hheld : runId ∈ held) (hupdated : runId ∈ updated) : ChangesRun runId s s' f := by
  unfold ChangesRun
  rw [hs', get?_release, if_pos hheld, Option.map_map]
  simp only [if_pos hupdated]
  rfl

theorem ChangesRun.of_release_not_mem (hs' : s'.runs = (s.release held updated f).runs)
    (h : runId ∉ held ∨ runId ∉ updated) : ChangesRun runId s s' id := by
  unfold ChangesRun
  rw [hs', get?_release]
  by_cases hheld : runId ∈ held
  · have hupdated := h.resolve_left (not_not.mpr hheld)
    rw [if_pos hheld, Option.map_map]
    simp only [if_neg hupdated]
    rfl
  · rw [if_neg hheld]
    rfl

end Changes

section Step
variable {settings : Settings} {s s' : Server} {t t' : Process} {a : Action}
  {started : List Process} {runId : RunId}

theorem tokenStep_check {c : Check} {phase : CheckPhase} {newRun : Option RunId}
    (hfound : Found s (.check c)) (h : CheckStep settings c s a s' phase newRun) :
    TokenStep runId s (.check c) a s' (.check { c with phase := phase })
      (newRun.map fun runId =>
        Process.runTask (.prerunCheck c.projectId runId .pending)).toList := by
  cases h with
  | testReady h =>
    refine .keep (.of_eq rfl) (fun m => ?_) rfl rfl
    split_ifs <;> simp [stepTotal, leadsTo, h]
  | lockRun h => exact .keep (.of_lockRun rfl) (fun m => by simp [stepTotal, leadsTo, h]) rfl rfl
  | @commit check held updated h =>
    have hruns : (c.commit s check held updated).runs =
        (s.release held updated (Check.change check)).runs := runs_commit c s check held updated
    by_cases hupdated : runId ∈ updated
    · have hheld := (hfound _ _ _ _ h).1.subset hupdated
      exact .change rfl h hheld hupdated (.of_release hruns hheld hupdated) (fun m => rfl) rfl
    · refine .keep (.of_release_not_mem hruns (.inr hupdated)) (fun m => ?_) rfl rfl
      have hcount : (Check.newRuns check updated).count runId = 0 := by
        unfold Check.newRuns
        split_ifs
        · rfl
        · exact List.count_eq_zero.mpr hupdated
      simp [stepTotal, leadsTo, h, hcount]
  | @schedule r newRuns h =>
    refine .keep (.of_eq rfl) (fun m => ?_) rfl rfl
    by_cases hr : r = runId
    · subst hr
      cases m <;> simp [stepTotal, leadsTo, RunTask.milestone, h]
    · cases m <;> simp [stepTotal, leadsTo, RunTask.milestone, h, hr]
  | rollback h =>
    exact .keep (.of_release_not_mem rfl (.inr nofun)) (fun m => by simp [stepTotal, leadsTo, h])
      rfl rfl
  | fail h =>
    cases hphase : c.phase with
    | committed newRuns =>
      exact .lose (.of_eq rfl) (fun m => rfl) rfl (.unscheduled rfl rfl hphase)
    | _ => exact .keep (.of_eq rfl) (fun m => by simp [stepTotal, leadsTo, hphase]) rfl rfl
  | _ h => exact .keep (.of_eq rfl) (fun m => by simp [stepTotal, leadsTo, h]) rfl rfl

def RunTask.run : RunTask → Option RunId
  | .prerunCheck _ runId _ | .createComparisonJobs _ runId _ | .chord _ runId _ => some runId
  | .aggregateComparisons _ runId _ _ | .solverTask _ runId _ => some runId
  | .saveAndPermute _ runId _ | .permuteMappingData runId _ => some runId
  | .markRunComplete runId _ => some runId
  | .runFailedHandler runId _ => runId

theorem run_of_milestone {t : RunTask} {m : Milestone} (h : t.milestone = some (m, runId)) :
    t.run = some runId := by
  unfold RunTask.milestone at h
  split at h
  case h_6 =>
    split_ifs at h
    cases h
    rfl
  all_goals
    cases h
    try rfl

theorem tokens_eq_zero {t : RunTask} (h : t.run ≠ some runId) :
    (∀ m, leadsTo m runId (.runTask t) = 0) ∧ spoils runId (.runTask t) = 0 ∧
      recovers runId (.runTask t) = 0 := by
  refine ⟨fun m => if_neg fun hm => h (run_of_milestone hm), ?_, ?_⟩
  · unfold spoils
    split
    case h_1 ht =>
      cases ht
      exact if_neg fun hr => h (congrArg some hr.1)
    case h_2 ht =>
      cases ht
      exact if_neg fun hr => h (congrArg some hr)
    case h_3 ht =>
      cases ht
      exact if_neg h
    case h_4 => rfl
  · unfold recovers
    split
    case h_1 ht =>
      cases ht
      exact if_neg fun hr => h (congrArg some hr.1)
    case h_2 ht =>
      cases ht
      exact if_neg fun hr => h (congrArg some hr)
    case h_3 ht =>
      cases ht
      exact if_neg h
    case h_4 => rfl

theorem run_ended (t : RunTask) : t.ended.run = t.run := by
  cases t <;> rfl

theorem run_of_runTaskStep {t t' : RunTask} {started : List RunTask}
    (h : RunTaskStep s t a s' t' started) :
    t'.run = t.run ∧ ∀ u ∈ started, u.run = t.run ∨ u.run = none := by
  cases h with
  | schedule =>
    refine ⟨rfl, fun u hu => .inl ?_⟩
    split_ifs at hu
    all_goals
      rw [List.mem_singleton.mp hu]
      rfl
  | header =>
    refine ⟨rfl, fun u hu => .inl ?_⟩
    unfold chordSchedules at hu
    split_ifs at hu
    · rw [List.mem_singleton.mp hu]
      rfl
    · rw [List.mem_singleton.mp hu]
      rfl
    · cases hu
  | followAggregation | followGroups =>
    refine ⟨rfl, fun u hu => .inl ?_⟩
    split_ifs at hu
    all_goals
      rw [List.mem_singleton.mp hu]
      rfl
  | start | solve | followPermutation =>
    refine ⟨rfl, fun u hu => .inl ?_⟩
    rw [List.mem_singleton.mp hu]
    rfl
  | fail =>
    refine ⟨run_ended t, fun u hu => ?_⟩
    cases t with
    | createComparisonJobs =>
      rw [List.mem_singleton.mp hu]
      exact .inr rfl
    | aggregateComparisons =>
      rw [List.mem_singleton.mp hu]
      exact .inl rfl
    | _ => cases hu
  | _ => exact ⟨rfl, nofun⟩

theorem changesRun_other {t t' : RunTask} {started : List RunTask}
    (h : RunTaskStep s t a s' t' started) (hr : t.run ≠ some runId) :
    ChangesRun runId s s' id := by
  have hne : ∀ r, t.run = some r → r ≠ runId := by
    rintro r hrun rfl
    exact hr hrun
  cases h with
  | lockRun => exact .of_lockRun rfl
  | commit =>
    refine .of_release_not_mem rfl (.inl fun hmem => ?_)
    exact hne _ rfl (List.mem_singleton.mp hmem).symm
  | rollback => exact .of_release_not_mem rfl (.inr nofun)
  | progress | overLimit | complete | recordFailure => exact .of_modifyRun_ne rfl (hne _ rfl)
  | header _ hheader =>
    cases hheader with
    | markFailure => exact .of_modifyRun_ne rfl (hne _ rfl)
    | _ => exact .of_eq rfl
  | _ => exact .of_eq rfl

theorem leadsTo_chord (m : Milestone) (runId : RunId) (projectId : ProjectId)
    (headers : List HeaderPhase) : leadsTo m runId (.runTask (.chord projectId runId headers)) =
      if m = .comparing ∧ headers.any HeaderPhase.Spoiled = false ∧
        headers.all HeaderPhase.hasReturned = false then 1 else 0 := by
  unfold leadsTo RunTask.milestone
  by_cases hnone : headers.any HeaderPhase.Spoiled ∨ headers.all HeaderPhase.hasReturned
  · simp only [if_pos hnone, reduceCtorEq, if_false]
    refine (if_neg fun h => ?_).symm
    rcases hnone with hspoiled | hreturned
    · exact absurd hspoiled (by simp [h.2.1])
    · exact absurd hreturned (by simp [h.2.2])
  · simp only [if_neg hnone, Option.some.injEq, Prod.mk.injEq, and_true]
    rw [not_or, Bool.not_eq_true, Bool.not_eq_true] at hnone
    simp only [hnone.1, hnone.2, and_true, eq_comm]

/-- The chord that `create_comparison_jobs` schedules is not spoiled and has not returned. -/
theorem scoringTasks_pending {packages : ℕ} (h : packages ≠ 0) :
    (scoringTasks packages).any HeaderPhase.Spoiled = false ∧
      (scoringTasks packages).all HeaderPhase.hasReturned = false := by
  unfold scoringTasks
  split_ifs
  · exact ⟨rfl, rfl⟩
  · simp [HeaderPhase.Spoiled, HeaderPhase.hasReturned, h]

theorem HeaderStep.not_returned {phase phase' : HeaderPhase}
    (h : HeaderStep s runId phase s' phase') :
    phase.hasReturned = false := by
  cases h with
  | fail h => rcases h with rfl | rfl | rfl <;> rfl
  | _ => rfl

/-- A step of a task of a header spoils the chord, or the chord is as good as before. -/
theorem HeaderStep.spoiled {phase phase' : HeaderPhase} (h : HeaderStep s runId phase s' phase') :
    phase'.Spoiled = true ∨ phase'.Spoiled = false ∧ phase.Spoiled = false ∧ phase ≠ .failed ∧
      phase' ≠ .failed := by
  cases h with
  | start | celeryBugFix | result => exact .inr ⟨rfl, rfl, by simp, by simp⟩
  | _ => exact .inl rfl

/-- The row of the run changes only when the task gives up because of too many candidates. -/
theorem HeaderStep.runs {phase phase' : HeaderPhase} (h : HeaderStep s runId phase s' phase') :
    s'.runs = s.runs ∨ phase = .overLimit ∧ phase' = .returned false ∧
      s'.runs = (s.modifyRun runId Service.markFailure).runs := by
  cases h with
  | markFailure => exact .inr ⟨rfl, rfl, rfl⟩
  | _ => exact .inl rfl

theorem recovers_le_one (runId : RunId) (t : Process) : recovers runId t ≤ 1 := by
  unfold recovers
  split
  case h_4 => exact Nat.zero_le 1
  all_goals
    split_ifs
    · exact le_rfl
    · exact Nat.zero_le 1

theorem all_returned_of_spoiled {headers : List HeaderPhase}
    (hspoiled : headers.any HeaderPhase.Spoiled = true) :
    headers.all (fun h => h = .returned true) = false := by
  obtain ⟨h, hmem, hh⟩ := List.any_eq_true.mp hspoiled
  refine List.all_eq_false.mpr ⟨h, hmem, fun hall => ?_⟩
  rw [of_decide_eq_true hall] at hh
  cases hh

/-- Once all tasks have returned a result, the body can aggregate them. -/
theorem all_returned_of_not_spoiled {headers : List HeaderPhase}
    (hall : headers.all HeaderPhase.hasReturned = true)
    (hspoiled : headers.any HeaderPhase.Spoiled = false) :
    headers.all (fun h => h = .returned true) = true := by
  refine List.all_eq_true.mpr fun h hmem => ?_
  have hret := List.all_eq_true.mp hall h hmem
  have hgood := List.any_eq_false.mp hspoiled h hmem
  cases h with
  | returned result =>
    cases result with
    | true => rfl
    | false => exact absurd rfl hgood
  | _ => cases hret

section Chord
variable {projectId : ProjectId} {before after : List HeaderPhase} {phase phase' : HeaderPhase}

theorem leadsTo_spoiled (hspoiled : (before ++ phase' :: after).any HeaderPhase.Spoiled = true)
    (m : Milestone) : stepTotal (leadsTo m runId)
      (.runTask (.chord projectId runId (before ++ phase' :: after)))
      ((chordSchedules projectId runId phase' (before ++ phase' :: after)).map .runTask) = 0 := by
  have hcomplete := all_returned_of_spoiled hspoiled
  unfold stepTotal
  rw [leadsTo_chord, if_neg (by simp [hspoiled])]
  unfold chordSchedules
  split_ifs <;> simp [leadsTo, RunTask.milestone, hcomplete]

/-- The failure of a chord that has just been spoiled will be recorded, by the chord itself, by its
body or by its error callback. -/
theorem recovers_spoiled (hspoiled : (before ++ phase' :: after).any HeaderPhase.Spoiled = true)
    (hfailed : .failed ∉ before ++ after) : 1 ≤ stepTotal (recovers runId)
      (.runTask (.chord projectId runId (before ++ phase' :: after)))
      ((chordSchedules projectId runId phase' (before ++ phase' :: after)).map .runTask) := by
  have hcomplete := all_returned_of_spoiled hspoiled
  unfold stepTotal chordSchedules
  split_ifs with hphase hreturned
  · simp [recovers]
  · simp [recovers, hcomplete]
  · have hmem : .failed ∉ before ++ phase' :: after := by
      rw [List.mem_append, not_or] at hfailed
      simp [hfailed, Ne.symm hphase]
    rw [Bool.not_eq_true] at hreturned
    simp [recovers, hspoiled, hmem, hreturned]

/-- The chord leads to the completion of the run, or is spoiled and recorded in the end. -/
theorem recovers_chord (hreturned : (before ++ phase :: after).all HeaderPhase.hasReturned = false)
    (hspoiled : (before ++ phase' :: after).any HeaderPhase.Spoiled = true) :
    leadsTo .comparing runId (.runTask (.chord projectId runId (before ++ phase :: after))) +
      leadsTo .aggregated runId (.runTask (.chord projectId runId (before ++ phase :: after))) +
        recovers runId (.runTask (.chord projectId runId (before ++ phase :: after))) ≤
          stepTotal (recovers runId) (.runTask (.chord projectId runId (before ++ phase' :: after)))
            ((chordSchedules projectId runId phase' (before ++ phase' :: after)).map .runTask) := by
  rw [leadsTo_chord, leadsTo_chord]
  by_cases hfailed : .failed ∈ before ++ after
  · have hmem : .failed ∈ before ++ phase :: after := by
      simp only [List.mem_append, List.mem_cons] at hfailed ⊢
      tauto
    have hany : (before ++ phase :: after).any HeaderPhase.Spoiled = true :=
      List.any_eq_true.mpr ⟨_, hmem, rfl⟩
    simp [recovers, hmem, hany]
  · refine le_trans ?_ (recovers_spoiled hspoiled hfailed)
    cases hany : (before ++ phase :: after).any HeaderPhase.Spoiled with
    | true => simpa [hany] using recovers_le_one runId _
    | false => simp [recovers, hany, hreturned]

theorem tokenStep_chord {i : ℕ} {action : HeaderAction}
    (hstep : HeaderStep s runId phase s' phase') :
    TokenStep runId s (.runTask (.chord projectId runId (before ++ phase :: after)))
      (.header i action) s' (.runTask (.chord projectId runId (before ++ phase' :: after)))
      ((chordSchedules projectId runId phase' (before ++ phase' :: after)).map .runTask) := by
  have hreturned : (before ++ phase :: after).all HeaderPhase.hasReturned = false := by
    simp [hstep.not_returned]
  -- the chord leads to the completion of the run as long as it is not spoiled
  have hpos : 0 < leadsTo .comparing runId (.runTask (.chord projectId runId
      (before ++ phase :: after))) + leadsTo .aggregated runId (.runTask (.chord projectId runId
        (before ++ phase :: after))) + spoils runId (.runTask (.chord projectId runId
          (before ++ phase :: after))) := by
    rw [leadsTo_chord]
    cases hspoiled : (before ++ phase :: after).any HeaderPhase.Spoiled with
    | true => simp [spoils, hspoiled]
    | false => simp [hreturned]
  rcases hstep.runs with hruns | ⟨rfl, rfl, hruns⟩
  · rcases hstep.spoiled with hspoiled | ⟨hspoiled', hspoiled, hfailed, hfailed'⟩
    · have hany : (before ++ phase' :: after).any HeaderPhase.Spoiled = true := by
        simp [hspoiled]
      exact .spoil (.of_eq hruns) hpos (leadsTo_spoiled hany)
        (recovers_chord hreturned hany)
    · have hsame : (before ++ phase' :: after).any HeaderPhase.Spoiled =
          (before ++ phase :: after).any HeaderPhase.Spoiled := by
        simp [hspoiled, hspoiled']
      have hmem : .failed ∈ before ++ phase' :: after ↔ .failed ∈ before ++ phase :: after := by
        simp [Ne.symm hfailed, Ne.symm hfailed']
      cases hall : (before ++ phase' :: after).all HeaderPhase.hasReturned with
      | false =>
        have hnone : chordSchedules projectId runId phase' (before ++ phase' :: after) = [] := by
          simp [chordSchedules, hfailed', hall]
        rw [hnone]
        refine .keep (.of_eq hruns) (fun m => ?_) ?_ ?_
        · simp [stepTotal, leadsTo_chord, hsame, hall, hreturned]
        · simp [stepTotal, spoils, hsame]
        · simp [stepTotal, recovers, hsame, hall, hreturned, hmem]
      | true =>
        cases hany : (before ++ phase :: after).any HeaderPhase.Spoiled with
        | true =>
          exact .spoil (.of_eq hruns) hpos (leadsTo_spoiled (hsame.trans hany))
            (recovers_chord hreturned (hsame.trans hany))
        | false =>
          have hcomplete := all_returned_of_not_spoiled hall (hsame.trans hany)
          have hbody : chordSchedules projectId runId phase' (before ++ phase' :: after) =
              [.aggregateComparisons projectId runId true .pending] := by
            simp [chordSchedules, hfailed', hall, hcomplete]
          rw [hbody]
          refine .keep (.of_eq hruns) (fun m => ?_) ?_ ?_
          · simp only [stepTotal, leadsTo_chord, hall, hany, hreturned]
            cases m <;> simp [leadsTo, RunTask.milestone]
          · simp [stepTotal, spoils, hsame, hany]
          · simp [stepTotal, recovers, hsame, hany]
  · refine .fail hpos (.of_modifyRun hruns) (leadsTo_spoiled ?_)
    simp [HeaderPhase.Spoiled]

end Chord

theorem tokenStep_header {projectId : ProjectId} {headers : List HeaderPhase} {i : ℕ}
    {action : HeaderAction} {phase phase' : HeaderPhase} (hphase : headers[i]? = some phase)
    (hheader : HeaderStep s runId phase s' phase') :
    TokenStep runId s (.runTask (.chord projectId runId headers)) (.header i action) s'
      (.runTask (.chord projectId runId (headers.set i phase')))
      ((chordSchedules projectId runId phase' (headers.set i phase')).map .runTask) := by
  obtain ⟨hi, rfl⟩ := List.getElem?_eq_some_iff.mp hphase
  obtain ⟨before, after, hlist, -, hset⟩ := List.exists_of_set hi
  rw [hset]
  conv =>
    arg 3
    rw [hlist]
  exact tokenStep_chord hheader

section Task
variable {t t' : RunTask} {started : List RunTask} {projectId : ProjectId}

/-- The milestones of a task and of those it has started say where they lead the run to. -/
theorem stepTotal_leadsTo (m : Milestone) (runId : RunId) (t : RunTask) (started : List RunTask) :
    stepTotal (leadsTo m runId) (.runTask t) (started.map .runTask) =
      ((t :: started).filterMap RunTask.milestone).count (m, runId) := by
  have hsum : ∀ tasks : List RunTask, ((tasks.map Process.runTask).map (leadsTo m runId)).sum =
      (tasks.filterMap RunTask.milestone).count (m, runId) := by
    intro tasks
    induction tasks with
    | nil => rfl
    | cons u tasks ih =>
      rw [List.map_cons, List.map_cons, List.sum_cons, ih, List.filterMap_cons]
      cases hu : u.milestone with
      | none => simp [leadsTo, hu]
      | some reached => simp [leadsTo, hu, List.count_cons, Nat.add_comm]
  exact hsum (t :: started)

/-- The task goes on, or hands over to the one that it has started. -/
theorem leadsTo_kept (h : (t' :: started).filterMap RunTask.milestone = t.milestone.toList)
    (m : Milestone) : stepTotal (leadsTo m runId) (.runTask t') (started.map .runTask) =
      leadsTo m runId (.runTask t) := by
  rw [stepTotal_leadsTo, h]
  cases ht : t.milestone with
  | none => simp [leadsTo, ht]
  | some reached => simp [leadsTo, ht, List.count_cons]

theorem leadsTo_reached {reached : Milestone}
    (h : (t' :: started).filterMap RunTask.milestone = [(reached, runId)]) (m : Milestone) :
    stepTotal (leadsTo m runId) (.runTask t') (started.map .runTask) =
      if m = reached then 1 else 0 := by
  rw [stepTotal_leadsTo, h, List.count_singleton]
  by_cases hm : m = reached
  · simp [hm]
  · simp [hm, Ne.symm hm]

theorem leadsTo_lost (h : (t' :: started).filterMap RunTask.milestone = []) (m : Milestone) :
    stepTotal (leadsTo m runId) (.runTask t') (started.map .runTask) = 0 := by
  rw [stepTotal_leadsTo, h]
  rfl

theorem leadsTo_self {reached : Milestone} (h : t.milestone = some (reached, runId)) :
    leadsTo reached runId (.runTask t) = 1 := if_pos h

theorem tokenStep_prerunCheck {phase : PrerunPhase}
    (h : RunTaskStep s (.prerunCheck projectId runId phase) a s' t' started) :
    TokenStep runId s (.runTask (.prerunCheck projectId runId phase)) a s' (.runTask t')
      (started.map .runTask) := by
  cases h with
  | testMissing =>
    by_cases hmissing : isRunMissing (s.hash runId) = true
    · rw [if_pos hmissing]
      exact .keep (.of_eq rfl) (leadsTo_kept rfl) rfl rfl
    · rw [if_neg hmissing]
      exact .lose (.of_eq rfl) (leadsTo_lost rfl) rfl (.cached rfl (by simpa using hmissing))
  | skip hrow hstarted =>
    exact .lose (.of_eq rfl) (leadsTo_lost rfl) rfl (.skipped rfl rfl hrow hstarted)
  | lockRun => exact .keep (.of_lockRun rfl) (leadsTo_kept rfl) rfl rfl
  | activate => exact .keep (.of_eq rfl) (leadsTo_kept rfl) rfl rfl
  | commit =>
    have hrow : ChangesRun runId s (s.release [runId] [runId] markRunning) markRunning :=
      .of_release rfl (List.mem_singleton_self _) (List.mem_singleton_self _)
    exact .begin (leadsTo_self rfl) hrow (leadsTo_reached rfl) rfl
  | start => exact .keep (.of_eq rfl) (leadsTo_kept rfl) rfl rfl
  | rollback =>
    exact .lose (.of_release_not_mem rfl (.inr nofun)) (leadsTo_lost rfl) rfl
      (.raised rfl rfl (by simp))
  | fail => exact .lose (.of_eq rfl) (leadsTo_lost rfl) rfl (.raised rfl rfl (by simp))

theorem tokenStep_createComparisonJobs {phase : TaskPhase Unit}
    (h : RunTaskStep s (.createComparisonJobs projectId runId phase) a s' t' started) :
    TokenStep runId s (.runTask (.createComparisonJobs projectId runId phase)) a s' (.runTask t')
      (started.map .runTask) := by
  cases h with
  | schedule packages =>
    by_cases hzero : packages = 0
    · rw [if_pos hzero]
      exact .keep (.of_eq rfl) (leadsTo_kept rfl) rfl rfl
    · rw [if_neg hzero]
      obtain ⟨hspoiled, hreturned⟩ := scoringTasks_pending hzero
      have hmilestone : (RunTask.chord projectId runId (scoringTasks packages)).milestone =
          some (.comparing, runId) := by
        simp [RunTask.milestone, hspoiled, hreturned]
      refine .keep (.of_eq rfl) (leadsTo_kept ?_) ?_ ?_
      · rw [List.filterMap_cons_none rfl, List.filterMap_cons_some hmilestone]
        rfl
      · simp [stepTotal, spoils, hspoiled]
      · simp [stepTotal, recovers, hspoiled]
  | fail => exact .lose (.of_eq rfl) (leadsTo_lost rfl) rfl (.raised rfl rfl (by simp))

/-- A body that fails, also for want of results, leaves its error callback behind. -/
theorem tokenStep_aggregateComparisons {complete : Bool} {phase : TaskPhase ResultType}
    (h : RunTaskStep s (.aggregateComparisons projectId runId complete phase) a s' t' started) :
    TokenStep runId s (.runTask (.aggregateComparisons projectId runId complete phase)) a s'
      (.runTask t') (started.map .runTask) := by
  cases h with
  | saveScores hproject htype =>
    refine .aggregate rfl hproject ?_ (leadsTo_reached rfl) rfl
    rw [if_pos htype]
    exact .of_eq rfl
  | progress hproject htype =>
    refine .aggregate rfl hproject ?_ (leadsTo_reached rfl) rfl
    rw [if_neg htype]
    exact .of_modifyRun rfl
  | followAggregation =>
    split_ifs
    · exact .keep (.of_eq rfl) (leadsTo_kept rfl) rfl rfl
    · exact .keep (.of_eq rfl) (leadsTo_kept rfl) rfl rfl
  | fail hended =>
    cases complete with
    | false =>
      refine .spoil (.of_eq rfl) (by simp [spoils]) (leadsTo_lost rfl) ?_
      cases phase <;> simp [stepTotal, leadsTo, RunTask.milestone, recovers, RunTask.ended,
        RunTask.errorCallback]
    | true =>
      cases phase with
      | ended => exact absurd rfl hended
      | pending | committed =>
        refine .spoil (.of_eq rfl) (by simp [leadsTo, RunTask.milestone]) (leadsTo_lost rfl) ?_
        simp [stepTotal, leadsTo, RunTask.milestone, recovers, RunTask.ended,
          RunTask.errorCallback]

theorem tokenStep_solverTask {phase : TaskPhase Unit}
    (h : RunTaskStep s (.solverTask projectId runId phase) a s' t' started) :
    TokenStep runId s (.runTask (.solverTask projectId runId phase)) a s' (.runTask t')
      (started.map .runTask) := by
  cases h with
  | solve => exact .keep (.of_eq rfl) (leadsTo_kept rfl) rfl rfl
  | overLimit =>
    exact .fail (by simp [leadsTo, RunTask.milestone]) (.of_modifyRun rfl) (leadsTo_lost rfl)
  | fail => exact .lose (.of_eq rfl) (leadsTo_lost rfl) rfl (.raised rfl rfl (by simp))

theorem tokenStep_saveAndPermute {phase : TaskPhase ResultType}
    (h : RunTaskStep s (.saveAndPermute projectId runId phase) a s' t' started) :
    TokenStep runId s (.runTask (.saveAndPermute projectId runId phase)) a s' (.runTask t')
      (started.map .runTask) := by
  cases h with
  | saveGroups => exact .keep (.of_eq rfl) (leadsTo_kept rfl) rfl rfl
  | followGroups =>
    split_ifs
    · exact .keep (.of_eq rfl) (leadsTo_kept rfl) rfl rfl
    · exact .keep (.of_eq rfl) (leadsTo_kept rfl) rfl rfl
  | fail => exact .lose (.of_eq rfl) (leadsTo_lost rfl) rfl (.raised rfl rfl (by simp))

theorem tokenStep_permuteMappingData {phase : TaskPhase Unit}
    (h : RunTaskStep s (.permuteMappingData runId phase) a s' t' started) :
    TokenStep runId s (.runTask (.permuteMappingData runId phase)) a s' (.runTask t')
      (started.map .runTask) := by
  cases h with
  | permute => exact .keep (.of_eq rfl) (leadsTo_kept rfl) rfl rfl
  | followPermutation => exact .keep (.of_eq rfl) (leadsTo_kept rfl) rfl rfl
  | fail => exact .lose (.of_eq rfl) (leadsTo_lost rfl) rfl (.raised rfl rfl (by simp))

theorem tokenStep_markRunComplete {phase : TaskPhase Unit}
    (h : RunTaskStep s (.markRunComplete runId phase) a s' t' started) :
    TokenStep runId s (.runTask (.markRunComplete runId phase)) a s' (.runTask t')
      (started.map .runTask) := by
  cases h with
  | complete => exact .complete (leadsTo_self rfl) (.of_modifyRun rfl) (leadsTo_reached rfl) rfl
  | completeCached => exact .lose (.of_eq rfl) (leadsTo_lost rfl) rfl (.finished rfl)
  | fail => exact .lose (.of_eq rfl) (leadsTo_lost rfl) rfl (.raised rfl rfl (by simp))

theorem tokenStep_runFailedHandler {phase : TaskPhase Unit}
    (h : RunTaskStep s (.runFailedHandler (some runId) phase) a s' t' started) :
    TokenStep runId s (.runTask (.runFailedHandler (some runId) phase)) a s' (.runTask t')
      (started.map .runTask) := by
  cases h with
  | recordFailure => exact .fail (by simp [spoils]) (.of_modifyRun rfl) (leadsTo_lost rfl)
  | fail => exact .lose (.of_eq rfl) (leadsTo_lost rfl) rfl (.raised rfl rfl (by simp))

theorem tokenStep_self (h : RunTaskStep s t a s' t' started) (hr : t.run = some runId) :
    TokenStep runId s (.runTask t) a s' (.runTask t') (started.map Process.runTask) := by
  cases t with
  | chord =>
    cases hr
    cases h with
    | header hphase hheader => exact tokenStep_header hphase hheader
    | fail hended => exact absurd rfl hended
  | prerunCheck =>
    cases hr
    exact tokenStep_prerunCheck h
  | createComparisonJobs =>
    cases hr
    exact tokenStep_createComparisonJobs h
  | aggregateComparisons =>
    cases hr
    exact tokenStep_aggregateComparisons h
  | solverTask =>
    cases hr
    exact tokenStep_solverTask h
  | saveAndPermute =>
    cases hr
    exact tokenStep_saveAndPermute h
  | permuteMappingData =>
    cases hr
    exact tokenStep_permuteMappingData h
  | markRunComplete =>
    cases hr
    exact tokenStep_markRunComplete h
  | runFailedHandler =>
    cases hr
    exact tokenStep_runFailedHandler h

end Task

theorem tokenStep_other {t t' : RunTask} {started : List RunTask}
    (h : RunTaskStep s t a s' t' started) (hr : t.run ≠ some runId) :
    TokenStep runId s (.runTask t) a s' (.runTask t') (started.map Process.runTask) := by
  obtain ⟨hrun, hstarted⟩ := run_of_runTaskStep h
  obtain ⟨hleads, hspoils, hrecovers⟩ := tokens_eq_zero hr
  obtain ⟨hleads', hspoils', hrecovers'⟩ := tokens_eq_zero (hrun ▸ hr)
  have hzero : ∀ f : Process → ℕ, (∀ u : RunTask, u.run ≠ some runId → f (.runTask u) = 0) →
      ((started.map Process.runTask).map f).sum = 0 := by
    intro f hf
    refine List.sum_eq_zero fun n hn => ?_
    obtain ⟨u, hu, rfl⟩ := List.mem_map.mp hn
    obtain ⟨task, htask, rfl⟩ := List.mem_map.mp hu
    refine hf task fun hrun => ?_
    rcases hstarted task htask with h | h
    · exact hr (h ▸ hrun)
    · rw [h] at hrun
      cases hrun
  refine .keep (changesRun_other h hr) (fun m => ?_) ?_ ?_
  · rw [stepTotal, hleads, hleads', hzero _ fun u hu => (tokens_eq_zero hu).1 m]
  · rw [stepTotal, hspoils, hspoils', hzero _ fun u hu => (tokens_eq_zero hu).2.1]
  · rw [stepTotal, hrecovers, hrecovers', hzero _ fun u hu => (tokens_eq_zero hu).2.2]

/-- Each step keeps the task of a run, loses it, spoils the run or changes its row. -/
theorem tokenStep_of_step (hfound : Found s t) (hstep : ServiceStep settings s t a s' t' started)
    (runId : RunId) : TokenStep runId s t a s' t' started := by
  have hschedules : ∀ (f : Process → ℕ) (schedules : List Schedule),
      (∀ schedule : Schedule, f schedule.process = 0) →
        ((schedules.map Schedule.process).map f).sum = 0 := by
    intro f schedules hf
    refine List.sum_eq_zero fun n hn => ?_
    obtain ⟨u, hu, rfl⟩ := List.mem_map.mp hn
    obtain ⟨schedule, -, rfl⟩ := List.mem_map.mp hu
    exact hf schedule
  cases hstep with
  | request | uploadTask =>
    refine .keep (.of_eq rfl) (fun m => ?_) ?_ ?_
    all_goals
      rw [stepTotal, hschedules _ _ fun schedule => by cases schedule <;> rfl]
      rfl
  | @post p a s' phase checks h =>
    have hzero : ∀ f : Process → ℕ, (∀ c : Check, c.phase = .pending → f (.check c) = 0) →
        ((if checks then [Process.check ⟨p.projectId, .pending⟩] else []).map f).sum = 0 := by
      intro f hf
      split_ifs
      · simp [hf ⟨p.projectId, .pending⟩ rfl]
      · rfl
    have hleads : ∀ m, stepTotal (leadsTo m runId) (.post { p with phase := phase })
        (if checks then [.check ⟨p.projectId, .pending⟩] else []) = 0 := by
      intro m
      rw [stepTotal, hzero _ fun c hc => by simp only [leadsTo, hc]]
      rfl
    have hspoils : stepTotal (spoils runId) (.post { p with phase := phase })
        (if checks then [.check ⟨p.projectId, .pending⟩] else []) = 0 := by
      rw [stepTotal, hzero _ fun c hc => rfl]
      rfl
    have hrecovers : stepTotal (recovers runId) (.post { p with phase := phase })
        (if checks then [.check ⟨p.projectId, .pending⟩] else []) = 0 := by
      rw [stepTotal, hzero _ fun c hc => rfl]
      rfl
    cases h with
    | @insert project h hproject hnew =>
      by_cases hid : p.runId = runId
      · subst hid
        exact .post rfl rfl hproject hnew (Dict.get?_set_self _ _ _) hleads hspoils
      · refine .keep ?_ hleads hspoils hrecovers
        unfold ChangesRun
        dsimp only
        rw [Dict.get?_set_of_ne _ _ (Ne.symm hid)]
        rfl
    | _ => exact .keep (.of_eq rfl) hleads hspoils hrecovers
  | check h => exact tokenStep_check hfound h
  | @runTask t t' a s' started h =>
    by_cases hr : t.run = some runId
    · exact tokenStep_self h hr
    · exact tokenStep_other h hr

/-- A step changes a total by what the process and the processes it starts contribute. -/
theorem total_stepTotal (f : Process → ℕ) (s s' : Server) (before after started : List Process)
    (t t' : Process) : Pool.total f ⟨s', before ++ t' :: after ++ started⟩ + f t =
      Pool.total f ⟨s, before ++ t :: after⟩ + stepTotal f t' started := by
  rw [Pool.total_step, stepTotal, Nat.add_assoc]

end Step
end EntityService.Service
