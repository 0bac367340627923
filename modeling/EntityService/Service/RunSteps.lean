import EntityService.Service.UploadSteps

/-! What the checks for executable runs and the tasks of the runs can do in a step, and what a
step of the service is. -/
namespace EntityService.Service
open Lib Cache

section Rows
variable {s s' : Server} {runId r : RunId} {f : RunRow → RunRow}

theorem updateRun_eq_some : s.updateRun runId f = some s' ↔
    s.locked runId = false ∧ s' = s.modifyRun runId f := by
  unfold Server.updateRun
  split_ifs with h
  · simp [h]
  · simp [h, eq_comm]

theorem get?_modifyRun (s : Server) (runId r : RunId) (f : RunRow → RunRow) :
    (s.modifyRun runId f).runs.get? r =
      if r = runId then (s.runs.get? r).map f else s.runs.get? r := by
  unfold Server.modifyRun
  rw [Dict.get?_mapValues]
  split_ifs with h
  · rfl
  · rw [Option.map_id']

theorem get?_release (s : Server) (held updated : List RunId) (f : RunRow → RunRow) (r : RunId) :
    (s.release held updated f).runs.get? r = if r ∈ held then
      (s.runs.get? r).map fun row => { (if r ∈ updated then f row else row) with locked := false }
    else s.runs.get? r := by
  unfold Server.release
  rw [Dict.get?_mapValues]
  by_cases h : r ∈ held
  · simp only [if_pos h]
  · simp only [if_neg h, Option.map_id']

theorem insertNewRun_eq_some {projectId : ProjectId} {type : RunType} :
    s.insertNewRun runId projectId type = some s' ↔ s.runs.get? runId = none ∧
      s' = { s with runs := s.runs.set runId ⟨projectId, .created, 1, type, false⟩ } := by
  unfold Server.insertNewRun
  rw [Dict.get?_eq_none]
  split_ifs with h
  · simp [h]
  · simp [h, eq_comm]

theorem mem_findRuns {projectId : ProjectId} {p : RunRow → Bool} :
    r ∈ s.findRuns projectId p ↔
      ∃ row, s.runs.get? r = some row ∧ row.project = projectId ∧ p row = true := by
  unfold Server.findRuns
  simp only [List.mem_map, List.mem_filter, decide_eq_true_eq, Prod.exists, exists_and_right,
    exists_eq_right, Dict.get?_eq_some]

/-- The runs after a commit do not depend on the size that it sets. -/
theorem runs_commit (c : Check) (s : Server) (check : SizeCheck) (held updated : List RunId) :
    (c.commit s check held updated).runs =
      (s.release held updated (Check.change check)).runs := by
  unfold Check.commit
  cases check.setSize <;> rfl

/-- Besides the runs, a commit changes the size of the project at most. -/
theorem db_commit (c : Check) (s : Server) (check : SizeCheck) (held updated : List RunId) :
    (c.commit s check held updated).db =
      check.setSize.elim s.db (s.db.setProjectEncodingSize c.projectId) := by
  unfold Check.commit
  cases check.setSize <;> rfl

theorem dataproviders_commit (c : Check) (s : Server) (check : SizeCheck)
    (held updated : List RunId) :
    (c.commit s check held updated).db.dataproviders = s.db.dataproviders := by
  rw [db_commit]
  cases check.setSize <;> rfl

theorem uploads_commit (c : Check) (s : Server) (check : SizeCheck) (held updated : List RunId) :
    (c.commit s check held updated).db.uploads = s.db.uploads := by
  rw [db_commit]
  cases check.setSize <;> rfl

theorem cache_commit (c : Check) (s : Server) (check : SizeCheck) (held updated : List RunId) :
    (c.commit s check held updated).cache = s.cache := by
  unfold Check.commit
  cases check.setSize <;> rfl

end Rows

inductive CheckStep (settings : Settings) (c : Check) (s : Server) :
    Action → Server → CheckPhase → Option RunId → Prop
  | testReady (h : c.phase = .pending) {ready : Bool}
      (hready : s.db.clksUploadedToProject c.projectId true = .ok ready) :
      CheckStep settings c s .proceed s (if ready then .ready else .ended) none
  | checkSizes (h : c.phase = .ready) {check : SizeCheck}
      (hcheck : checkProjectEncodingSize settings s.db c.projectId = .ok check) :
      CheckStep settings c s .proceed s (.sized check check.invalid) none
  | invalidate {check : SizeCheck} {dpId : DpId} {invalid : List DpId} {db : Database}
      (h : c.phase = .sized check (dpId :: invalid)) (hok : s.db.invalidateUpload dpId = .ok db) :
      CheckStep settings c s .proceed { s with db := db } (.sized check invalid) none
  | beginUpdate {check : SizeCheck} (h : c.phase = .sized check []) :
      CheckStep settings c s .proceed s
        (.updating check (s.findRuns c.projectId (Check.wanted check)) [] []) none
  | skipRun {check : SizeCheck} {runId : RunId} {todo held updated : List RunId}
      (h : c.phase = .updating check (runId :: todo) held updated)
      (hrow : s.runs.get? runId = none) :
      CheckStep settings c s .proceed s (.updating check todo held updated) none
  | lockRun {check : SizeCheck} {runId : RunId} {todo held updated : List RunId} {row : RunRow}
      (h : c.phase = .updating check (runId :: todo) held updated)
      (hrow : s.runs.get? runId = some row) (hlocked : row.locked = false) :
      CheckStep settings c s .proceed (s.lockRun runId) (.updating check todo (runId :: held)
        (if Check.wanted check row then runId :: updated else updated)) none
  | commit {check : SizeCheck} {held updated : List RunId}
      (h : c.phase = .updating check [] held updated) :
      CheckStep settings c s .proceed (c.commit s check held updated)
        (.committed (Check.newRuns check updated)) none
  | schedule {runId : RunId} {newRuns : List RunId} (h : c.phase = .committed (runId :: newRuns)) :
      CheckStep settings c s .proceed s (.committed newRuns) (some runId)
  | finish (h : c.phase = .committed []) : CheckStep settings c s .proceed s .ended none
  | rollback {check : SizeCheck} {todo held updated : List RunId}
      (h : c.phase = .updating check todo held updated) :
      CheckStep settings c s .raise (s.release held [] id) .ended none
  | fail (h : c.phase ≠ .ended) (hupdating : ∀ check todo held updated,
        c.phase ≠ .updating check todo held updated) :
      CheckStep settings c s .raise s .ended none

theorem checkStep_of_step {settings : Settings} {c : Check} {s s' : Server} {a : Action}
    {phase : CheckPhase} {newRun : Option RunId}
    (h : c.step settings s a = some (s', phase, newRun)) :
    CheckStep settings c s a s' phase newRun := by
  cases a with
  | problem | schedule | header | overLimit => cases h
  | raise =>
    obtain ⟨s'', hraise, he⟩ := Option.map_eq_some_iff.mp h
    cases he
    unfold Check.raise at hraise
    split at hraise
    case h_1 hphase =>
      cases hraise
      exact .rollback hphase
    case h_2 => cases hraise
    case h_3 hupdating hended =>
      cases hraise
      exact .fail hended hupdating
  | proceed =>
    change c.proceed settings s = _ at h
    unfold Check.proceed at h
    split at h
    case h_1 hphase =>
      obtain ⟨ready, hok, he⟩ := Option.map_eq_some_iff.mp h
      cases he
      exact .testReady hphase (committed_eq_some.mp hok)
    case h_2 hphase =>
      obtain ⟨check, hok, he⟩ := Option.map_eq_some_iff.mp h
      cases he
      exact .checkSizes hphase (committed_eq_some.mp hok)
    case h_3 hphase =>
      obtain ⟨db, hok, he⟩ := Option.map_eq_some_iff.mp h
      cases he
      exact .invalidate hphase (committed_eq_some.mp hok)
    case h_4 hphase =>
      cases h
      exact .beginUpdate hphase
    case h_5 hphase =>
      split at h
      case h_1 hrow =>
        cases h
        exact .skipRun hphase hrow
      case h_2 row hrow =>
        by_cases hlocked : row.locked = true
        · rw [if_pos hlocked] at h
          cases h
        · rw [if_neg hlocked] at h
          cases h
          exact .lockRun hphase hrow (by simpa using hlocked)
    case h_6 hphase =>
      cases h
      exact .commit hphase
    case h_7 hphase =>
      cases h
      exact .schedule hphase
    case h_8 hphase =>
      cases h
      exact .finish hphase
    case h_9 => cases h

inductive HeaderStep (s : Server) (runId : RunId) : HeaderPhase → Server → HeaderPhase → Prop
  | start (h : (s.hash runId).state = some .active) : HeaderStep s runId .pending s .active
  | inactive : HeaderStep s runId .pending s (.returned false)
  | celeryBugFix : HeaderStep s runId .celeryBugFix s (.returned true)
  | result : HeaderStep s runId .active s (.returned true)
  | notImplemented : HeaderStep s runId .active s (.returned false)
  | overLimit : HeaderStep s runId .active s .overLimit
  | markFailure (hlocked : s.locked runId = false) :
      HeaderStep s runId .overLimit (s.modifyRun runId markFailure) (.returned false)
  | fail {phase : HeaderPhase} (h : phase = .pending ∨ phase = .active ∨ phase = .overLimit) :
      HeaderStep s runId phase s .failed

theorem headerStep_of_step {s s' : Server} {runId : RunId} {phase phase' : HeaderPhase}
    {action : HeaderAction} (h : phase.step s runId action = some (s', phase')) :
    HeaderStep s runId phase s' phase' := by
  unfold HeaderPhase.step at h
  split at h
  case h_1 =>
    cases h
    split_ifs with hactive
    · exact .start hactive
    · exact .inactive
  case h_2 =>
    cases h
    exact .celeryBugFix
  case h_3 =>
    cases h
    exact .result
  case h_4 =>
    cases h
    exact .notImplemented
  case h_5 =>
    cases h
    exact .overLimit
  case h_6 =>
    simp only [Option.bind_eq_bind, Option.bind_eq_some_iff, Option.pure_def] at h
    obtain ⟨s'', hupdate, he⟩ := h
    obtain ⟨hlocked, rfl⟩ := updateRun_eq_some.mp hupdate
    cases he
    exact .markFailure hlocked
  case h_7 =>
    cases h
    exact .fail (.inl rfl)
  case h_8 =>
    cases h
    exact .fail (.inr (.inl rfl))
  case h_9 =>
    cases h
    exact .fail (.inr (.inr rfl))
  case h_10 => cases h

inductive RunTaskStep (s : Server) : RunTask → Action → Server → RunTask → List RunTask → Prop
  | testMissing {projectId : ProjectId} {runId : RunId} :
      RunTaskStep s (.prerunCheck projectId runId .pending) .proceed s
        (.prerunCheck projectId runId (if isRunMissing (s.hash runId) then .missing else .ended)) []
  | skip {projectId : ProjectId} {runId : RunId} {row : RunRow}
      (hrow : s.runs.get? runId = some row)
      (hstarted : row.locked ∨ row.state ∈ [RunState.running, .completed, .error]) :
      RunTaskStep s (.prerunCheck projectId runId .missing) .proceed s
        (.prerunCheck projectId runId .ended) []
  | lockRun {projectId : ProjectId} {runId : RunId} {row : RunRow}
      (hrow : s.runs.get? runId = some row) (hlocked : row.locked = false)
      (hstate : row.state ∉ [RunState.running, .completed, .error]) :
      RunTaskStep s (.prerunCheck projectId runId .missing) .proceed (s.lockRun runId)
        (.prerunCheck projectId runId .locked) []
  | activate {projectId : ProjectId} {runId : RunId} :
      RunTaskStep s (.prerunCheck projectId runId .locked) .proceed
        (s.setHash runId (setRunStateActive (s.hash runId)))
        (.prerunCheck projectId runId .activated) []
  | commit {projectId : ProjectId} {runId : RunId} :
      RunTaskStep s (.prerunCheck projectId runId .activated) .proceed
        (s.release [runId] [runId] markRunning) (.prerunCheck projectId runId .started) []
  | start {projectId : ProjectId} {runId : RunId} :
      RunTaskStep s (.prerunCheck projectId runId .started) .proceed s
        (.prerunCheck projectId runId .ended) [.createComparisonJobs projectId runId .pending]
  | schedule {projectId : ProjectId} {runId : RunId} (packages : ℕ) :
      RunTaskStep s (.createComparisonJobs projectId runId .pending) (.schedule packages) s
        (.createComparisonJobs projectId runId .ended)
        (if packages = 0 then [.aggregateComparisons projectId runId true .pending]
          else [.chord projectId runId (scoringTasks packages)])
  | header {projectId : ProjectId} {runId : RunId} {headers : List HeaderPhase} {i : ℕ}
      {action : HeaderAction} {phase phase' : HeaderPhase} {s' : Server}
      (hphase : headers[i]? = some phase) (hstep : HeaderStep s runId phase s' phase') :
      RunTaskStep s (.chord projectId runId headers) (.header i action) s'
        (.chord projectId runId (headers.set i phase'))
        (chordSchedules projectId runId phase' (headers.set i phase'))
  | saveScores {projectId : ProjectId} {runId : RunId} {project : ProjectRow}
      (hproject : s.db.findProject projectId = some project)
      (htype : project.resultType = .similarityScores) :
      RunTaskStep s (.aggregateComparisons projectId runId true .pending) .proceed s
        (.aggregateComparisons projectId runId true (.committed project.resultType)) []
  | progress {projectId : ProjectId} {runId : RunId} {project : ProjectRow}
      (hproject : s.db.findProject projectId = some project)
      (htype : project.resultType ≠ .similarityScores) (hlocked : s.locked runId = false) :
      RunTaskStep s (.aggregateComparisons projectId runId true .pending) .proceed
        (s.modifyRun runId progressStage)
        (.aggregateComparisons projectId runId true (.committed project.resultType)) []
  | followAggregation {projectId : ProjectId} {runId : RunId} {resultType : ResultType} :
      RunTaskStep s (.aggregateComparisons projectId runId true (.committed resultType)) .proceed s
        (.aggregateComparisons projectId runId true .ended)
        (if resultType = .similarityScores then [.markRunComplete runId .pending]
          else [.solverTask projectId runId .pending])
  | solve {projectId : ProjectId} {runId : RunId} :
      RunTaskStep s (.solverTask projectId runId .pending) .proceed s
        (.solverTask projectId runId .ended) [.saveAndPermute projectId runId .pending]
  | overLimit {projectId : ProjectId} {runId : RunId} (hlocked : s.locked runId = false) :
      RunTaskStep s (.solverTask projectId runId .pending) .overLimit
        (s.modifyRun runId markFailure) (.solverTask projectId runId .ended) []
  | saveGroups {projectId : ProjectId} {runId : RunId} {project : ProjectRow}
      (hproject : s.db.findProject projectId = some project) :
      RunTaskStep s (.saveAndPermute projectId runId .pending) .proceed s
        (.saveAndPermute projectId runId (.committed project.resultType)) []
  | followGroups {projectId : ProjectId} {runId : RunId} {resultType : ResultType} :
      RunTaskStep s (.saveAndPermute projectId runId (.committed resultType)) .proceed s
        (.saveAndPermute projectId runId .ended)
        (if resultType = .permutations then [.permuteMappingData runId .pending]
          else [.markRunComplete runId .pending])
  | permute {runId : RunId} :
      RunTaskStep s (.permuteMappingData runId .pending) .proceed s
        (.permuteMappingData runId (.committed ())) []
  | followPermutation {runId : RunId} :
      RunTaskStep s (.permuteMappingData runId (.committed ())) .proceed s
        (.permuteMappingData runId .ended) [.markRunComplete runId .pending]
  | complete {runId : RunId} (hlocked : s.locked runId = false) :
      RunTaskStep s (.markRunComplete runId .pending) .proceed (s.modifyRun runId markComplete)
        (.markRunComplete runId (.committed ())) []
  | completeCached {runId : RunId} :
      RunTaskStep s (.markRunComplete runId (.committed ())) .proceed
        (s.setHash runId (setRunStateComplete (s.hash runId))) (.markRunComplete runId .ended) []
  | recordFailure {runId : RunId} (hlocked : s.locked runId = false) :
      RunTaskStep s (.runFailedHandler (some runId) .pending) .proceed
        (s.modifyRun runId markFailure) (.runFailedHandler (some runId) .ended) []
  | rollback {projectId : ProjectId} {runId : RunId} {phase : PrerunPhase}
      (h : phase = .locked ∨ phase = .activated) :
      RunTaskStep s (.prerunCheck projectId runId phase) .raise (s.release [runId] [] id)
        (.prerunCheck projectId runId .ended) []
  | fail {t : RunTask} (hended : t ≠ t.ended) (hlocks : ∀ projectId runId,
        t ≠ .prerunCheck projectId runId .locked ∧ t ≠ .prerunCheck projectId runId .activated) :
      RunTaskStep s t .raise s t.ended t.errorCallback

/-- The tasks of a run read and write its row and the cache only. -/
theorem db_runTaskStep {s s' : Server} {t t' : RunTask} {a : Action} {started : List RunTask}
    (h : RunTaskStep s t a s' t' started) : s'.db = s.db := by
  cases h with
  | header _ hheader => cases hheader <;> rfl
  | _ => rfl

section Inversion
variable {s s' : Server} {t t' : RunTask} {started : List RunTask} {projectId : ProjectId}
  {runId : RunId}

theorem runTaskStep_raise (h : t.step s .raise = some (s', t', started)) :
    RunTaskStep s t .raise s' t' started := by
  unfold RunTask.step at h
  split_ifs at h with hended
  cases h
  cases t with
  | prerunCheck projectId runId phase =>
    cases phase with
    | locked => exact .rollback (.inl rfl)
    | activated => exact .rollback (.inr rfl)
    | _ => exact .fail hended (by simp)
  | _ => exact .fail hended (by simp)

theorem runTaskStep_prerunCheck {phase : PrerunPhase}
    (h : (RunTask.prerunCheck projectId runId phase).proceed s = some (s', t', started)) :
    RunTaskStep s (.prerunCheck projectId runId phase) .proceed s' t' started := by
  cases phase with
  | pending =>
    cases h
    exact .testMissing
  | missing =>
    obtain ⟨row, hrow, h⟩ := Option.bind_eq_some_iff.mp h
    split_ifs at h with hstarted
    · cases h
      exact .skip hrow hstarted
    · cases h
      rw [not_or, Bool.not_eq_true] at hstarted
      exact .lockRun hrow hstarted.1 hstarted.2
  | locked =>
    cases h
    exact .activate
  | activated =>
    cases h
    exact .commit
  | started =>
    cases h
    exact .start
  | ended => cases h

theorem runTaskStep_aggregateComparisons {complete : Bool} {phase : TaskPhase ResultType}
    (h : (RunTask.aggregateComparisons projectId runId complete phase).proceed s =
      some (s', t', started)) :
    RunTaskStep s (.aggregateComparisons projectId runId complete phase) .proceed s' t'
      started := by
  cases complete with
  | false => cases h
  | true =>
    cases phase with
    | pending =>
      obtain ⟨project, hproject, h⟩ := Option.bind_eq_some_iff.mp h
      by_cases htype : project.resultType = .similarityScores
      · rw [if_pos htype] at h
        cases h
        exact .saveScores hproject htype
      · rw [if_neg htype] at h
        obtain ⟨server, hupdate, h⟩ := Option.bind_eq_some_iff.mp h
        cases h
        obtain ⟨hlocked, rfl⟩ := updateRun_eq_some.mp hupdate
        exact .progress hproject htype hlocked
    | committed resultType =>
      cases h
      exact .followAggregation
    | ended => cases h

theorem runTaskStep_saveAndPermute {phase : TaskPhase ResultType}
    (h : (RunTask.saveAndPermute projectId runId phase).proceed s = some (s', t', started)) :
    RunTaskStep s (.saveAndPermute projectId runId phase) .proceed s' t' started := by
  cases phase with
  | pending =>
    obtain ⟨project, hproject, h⟩ := Option.bind_eq_some_iff.mp h
    cases h
    exact .saveGroups hproject
  | committed resultType =>
    cases h
    exact .followGroups
  | ended => cases h

theorem runTaskStep_permuteMappingData {phase : TaskPhase Unit}
    (h : (RunTask.permuteMappingData runId phase).proceed s = some (s', t', started)) :
    RunTaskStep s (.permuteMappingData runId phase) .proceed s' t' started := by
  cases phase with
  | pending =>
    cases h
    exact .permute
  | committed =>
    cases h
    exact .followPermutation
  | ended => cases h

theorem runTaskStep_markRunComplete {phase : TaskPhase Unit}
    (h : (RunTask.markRunComplete runId phase).proceed s = some (s', t', started)) :
    RunTaskStep s (.markRunComplete runId phase) .proceed s' t' started := by
  cases phase with
  | pending =>
    obtain ⟨server, hupdate, h⟩ := Option.bind_eq_some_iff.mp h
    cases h
    obtain ⟨hlocked, rfl⟩ := updateRun_eq_some.mp hupdate
    exact .complete hlocked
  | committed =>
    cases h
    exact .completeCached
  | ended => cases h

/-- Without the id of a run the handler raises. -/
theorem runTaskStep_runFailedHandler {runId : Option RunId} {phase : TaskPhase Unit}
    (h : (RunTask.runFailedHandler runId phase).proceed s = some (s', t', started)) :
    RunTaskStep s (.runFailedHandler runId phase) .proceed s' t' started := by
  cases runId with
  | none => cases h
  | some runId =>
    cases phase with
    | pending =>
      obtain ⟨server, hupdate, h⟩ := Option.bind_eq_some_iff.mp h
      cases h
      obtain ⟨hlocked, rfl⟩ := updateRun_eq_some.mp hupdate
      exact .recordFailure hlocked
    | committed => cases h
    | ended => cases h

theorem runTaskStep_proceed (h : t.proceed s = some (s', t', started)) :
    RunTaskStep s t .proceed s' t' started := by
  cases t with
  | prerunCheck => exact runTaskStep_prerunCheck h
  | createComparisonJobs => cases h
  | chord => cases h
  | aggregateComparisons => exact runTaskStep_aggregateComparisons h
  | solverTask projectId runId phase =>
    cases phase with
    | pending =>
      cases h
      exact .solve
    | committed => cases h
    | ended => cases h
  | saveAndPermute => exact runTaskStep_saveAndPermute h
  | permuteMappingData => exact runTaskStep_permuteMappingData h
  | markRunComplete => exact runTaskStep_markRunComplete h
  | runFailedHandler => exact runTaskStep_runFailedHandler h

theorem runTaskStep_of_step {a : Action} (h : t.step s a = some (s', t', started)) :
    RunTaskStep s t a s' t' started := by
  cases a with
  | problem => cases h
  | proceed => exact runTaskStep_proceed h
  | raise => exact runTaskStep_raise h
  | schedule packages =>
    unfold RunTask.step at h
    dsimp only at h
    split at h
    case h_1 =>
      cases h
      exact .schedule packages
    case h_2 => cases h
  | header i action =>
    unfold RunTask.step at h
    dsimp only at h
    split at h
    case h_1 =>
      simp only [Option.bind_eq_bind, Option.bind_eq_some_iff, Option.pure_def] at h
      obtain ⟨phase, hphase, ⟨server, phase'⟩, hstep, he⟩ := h
      cases he
      exact .header hphase (headerStep_of_step hstep)
    case h_2 => cases h
  | overLimit =>
    unfold RunTask.step at h
    dsimp only at h
    split at h
    case h_1 =>
      obtain ⟨server, hupdate, h⟩ := Option.bind_eq_some_iff.mp h
      cases h
      obtain ⟨hlocked, rfl⟩ := updateRun_eq_some.mp hupdate
      exact .overLimit hlocked
    case h_2 => cases h

end Inversion

inductive PostStep (p : Post) (s : Server) : Action → Server → TaskPhase Unit → Bool → Prop
  | insert {project : ProjectRow} (h : p.phase = .pending)
      (hproject : s.db.findProject p.projectId = some project)
      (hnew : s.runs.get? p.runId = none) :
      PostStep p s .proceed { s with runs := s.runs.set p.runId ⟨p.projectId, .created, 1,
        if project.resultType = .similarityScores then .noMapping else .default, false⟩ }
        (.committed ()) false
  | notify (h : p.phase = .committed ()) : PostStep p s .proceed s .ended true
  | fail (h : p.phase ≠ .ended) : PostStep p s .raise s .ended false

theorem db_postStep {p : Post} {s s' : Server} {a : Action} {phase : TaskPhase Unit} {checks : Bool}
    (h : PostStep p s a s' phase checks) : s'.db = s.db := by
  cases h <;> rfl

theorem postStep_of_step {p : Post} {s s' : Server} {a : Action} {phase : TaskPhase Unit}
    {checks : Bool} (h : p.step s a = some (s', phase, checks)) :
    PostStep p s a s' phase checks := by
  cases a with
  | problem | schedule | header | overLimit => cases h
  | raise =>
    change (if p.phase = .ended then none else some (s, _, false)) = _ at h
    split_ifs at h with hended
    cases h
    exact .fail hended
  | proceed =>
    change p.proceed s = _ at h
    unfold Post.proceed at h
    split at h
    case h_1 hphase =>
      simp only [Option.bind_eq_bind, Option.bind_eq_some_iff, Option.pure_def] at h
      obtain ⟨project, hproject, s'', hinsert, he⟩ := h
      cases he
      obtain ⟨hnew, rfl⟩ := insertNewRun_eq_some.mp hinsert
      exact .insert hphase hproject hnew
    case h_2 hphase =>
      cases h
      exact .notify hphase
    case h_3 => cases h

inductive ServiceStep (settings : Settings) (s : Server) :
    Process → Action → Server → Process → List Process → Prop
  | request {r : UploadRequest} {a : Action} {db : Database} {phase : RequestPhase}
      {schedules : List Schedule} (h : RequestStep s.db r a db phase schedules) :
      ServiceStep settings s (.request r) a { s with db := db } (.request { r with phase := phase })
        (schedules.map Schedule.process)
  | uploadTask {t : UploadTask} {a : Action} {db : Database} {phase : UploadTaskPhase}
      {schedules : List Schedule} (h : UploadTaskStep settings s.db t a db phase schedules) :
      ServiceStep settings s (.uploadTask t) a { s with db := db }
        (.uploadTask { t with phase := phase }) (schedules.map Schedule.process)
  | post {p : Post} {a : Action} {s' : Server} {phase : TaskPhase Unit} {checks : Bool}
      (h : PostStep p s a s' phase checks) :
      ServiceStep settings s (.post p) a s' (.post { p with phase := phase })
        (if checks then [.check ⟨p.projectId, .pending⟩] else [])
  | check {c : Check} {a : Action} {s' : Server} {phase : CheckPhase} {newRun : Option RunId}
      (h : CheckStep settings c s a s' phase newRun) :
      ServiceStep settings s (.check c) a s' (.check { c with phase := phase })
        (newRun.map fun runId => Process.runTask (.prerunCheck c.projectId runId .pending)).toList
  | runTask {t t' : RunTask} {a : Action} {s' : Server} {started : List RunTask}
      (h : RunTaskStep s t a s' t' started) :
      ServiceStep settings s (.runTask t) a s' (.runTask t') (started.map Process.runTask)

theorem serviceStep_of_step {settings : Settings} {s s' : Server} {t t' : Process} {a : Action}
    {started : List Process} (h : service settings s t a = some (s', t', started)) :
    ServiceStep settings s t a s' t' started := by
  unfold service at h
  split at h <;>
    simp only [Option.bind_eq_bind, Option.bind_eq_some_iff, Option.pure_def] at h
  case h_1 r =>
    obtain ⟨⟨db, phase, schedules⟩, hstep, he⟩ := h
    cases he
    exact .request (requestStep_of_step hstep)
  case h_2 t =>
    obtain ⟨⟨db, phase, schedules⟩, hstep, he⟩ := h
    cases he
    exact .uploadTask (uploadTaskStep_of_step hstep)
  case h_3 p =>
    obtain ⟨⟨s'', phase, checks⟩, hstep, he⟩ := h
    cases he
    exact .post (postStep_of_step hstep)
  case h_4 c =>
    obtain ⟨⟨s'', phase, newRun⟩, hstep, he⟩ := h
    cases he
    exact .check (checkStep_of_step hstep)
  case h_5 t =>
    obtain ⟨⟨s'', t'', started'⟩, hstep, he⟩ := h
    cases he
    exact .runTask (runTaskStep_of_step hstep)

/-- A task that has been scheduled and not started. -/
def Process.Scheduled : Process → Bool
  | .uploadTask _ => true
  | .check c => c.phase = .pending
  | .runTask (.prerunCheck _ _ phase) => phase = .pending
  | .runTask _ => true
  | _ => false

theorem scheduled_of_step {settings : Settings} {s s' : Server} {t t' : Process} {a : Action}
    {started : List Process} (hstep : ServiceStep settings s t a s' t' started) :
    ∀ u ∈ started, u.Scheduled := by
  intro u hu
  cases hstep with
  | request | uploadTask =>
    obtain ⟨schedule, -, rfl⟩ := List.mem_map.mp hu
    cases schedule <;> rfl
  | post =>
    split_ifs at hu
    · rw [List.mem_singleton.mp hu]
      rfl
    · cases hu
  | check =>
    obtain ⟨r, -, rfl⟩ := Option.map_eq_some_iff.mp (Option.mem_toList.mp hu)
    rfl
  | @runTask t t' a s' started h =>
    obtain ⟨task, htask, rfl⟩ := List.mem_map.mp hu
    cases h with
    | schedule | followAggregation | followGroups =>
      split_ifs at htask
      all_goals
        rw [List.mem_singleton.mp htask]
        rfl
    | header =>
      unfold chordSchedules at htask
      split_ifs at htask
      · rw [List.mem_singleton.mp htask]
        rfl
      · rw [List.mem_singleton.mp htask]
        rfl
      · cases htask
    | start | solve | followPermutation =>
      rw [List.mem_singleton.mp htask]
      rfl
    | fail =>
      cases t with
      | createComparisonJobs | aggregateComparisons =>
        rw [List.mem_singleton.mp htask]
        rfl
      | _ => cases htask
    | _ => cases htask

end EntityService.Service
