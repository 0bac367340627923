import EntityService.Database.SizeCommit
import EntityService.Lib.Machine
import EntityService.Service.RunSteps
import EntityService.Tasks.Success
import EntityService.Views.AuthChecks

/-! The check for executable runs from its start to its end, while no other process takes a step:
which runs it queues, and the encoding size that its project has afterwards. -/
namespace EntityService.Service
open Lib

namespace Check
variable (settings : Settings) (projectId : ProjectId)

/-- The next step of a check that runs alone. Where it cannot proceed an exception ends it. -/
def next (r : Server × CheckPhase) : Option ((Server × CheckPhase) × List RunId) :=
  match proceed settings ⟨projectId, r.2⟩ r.1 with
  | some (s, phase, newRun) => some ((s, phase), newRun.toList)
  | none => (raise ⟨projectId, r.2⟩ r.1).map fun s => ((s, .ended), [])

/-- The check ends, once the uploads are ready, and has scheduled `prerun_check` for new runs. -/
def Ends (s s' : Server) (newRuns : List RunId) : Prop :=
  Steps (next settings projectId) (s, .ready) (s', .ended) newRuns

def Queues (s : Server) : Prop :=
  ∃ s' check todo newRuns, check.raises = false ∧
    Steps (next settings projectId) (s, .ready) (s', .updating check todo [] []) newRuns

end Check

section Alone
variable {settings : Settings} {projectId : ProjectId} {s s' : Server}

theorem next_of_proceed {phase phase' : CheckPhase} {newRun : Option RunId}
    (h : Check.proceed settings ⟨projectId, phase⟩ s = some (s', phase', newRun)) :
    Check.next settings projectId (s, phase) = some ((s', phase'), newRun.toList) := by
  simp only [Check.next, h]

/-- No other transaction holds the lock of a run of the project. -/
def Unlocked (s : Server) (projectId : ProjectId) : Prop :=
  ∀ runId row, s.runs.get? runId = some row → row.project = projectId → row.locked = false

/-- The check invalidates the uploads that do not fit, each in its own transaction. -/
theorem steps_invalid (settings : Settings) (projectId : ProjectId) (check : SizeCheck)
    {invalid : List DpId}
    (hrows : ∀ dpId ∈ invalid, s.db.uploadsOf dpId ≠ []) :
    ∃ db, Steps (Check.next settings projectId) (s, .sized check invalid)
      ({ s with db := db }, .sized check []) [] ∧ db.projects = s.db.projects := by
  induction invalid generalizing s with
  | nil => exact ⟨s.db, .refl _, rfl⟩
  | cons dpId invalid ih =>
    have hdp := hrows dpId List.mem_cons_self
    obtain ⟨db, hok⟩ := Database.exists_invalidateUpload hdp
    obtain ⟨hchanges, hown⟩ := Database.changesUploads_invalidateUpload hok
    have hproceed : Check.proceed settings ⟨projectId, .sized check (dpId :: invalid)⟩ s =
        some ({ s with db := db }, .sized check invalid, none) := by
      simp [Check.proceed, hok, committed, Except.toOption]
    have hrows' : ∀ d ∈ invalid, db.uploadsOf d ≠ [] := by
      intro d hd
      by_cases hsame : d = dpId
      · subst hsame
        simpa [hown] using hdp
      · rw [hchanges.other d hsame]
        exact hrows d (List.mem_cons_of_mem _ hd)
    obtain ⟨db', hsteps, hprojects⟩ := ih (s := { s with db := db }) hrows'
    exact ⟨db', .silent (next_of_proceed hproceed) hsteps, hprojects.trans hchanges.projects⟩

theorem steps_updating (settings : Settings) (projectId : ProjectId) (check : SizeCheck)
    {todo : List RunId} (held updated : List RunId)
    (hnodup : todo.Nodup) (hrows : ∀ r ∈ todo, ∃ row, s.runs.get? r = some row ∧
      row.locked = false ∧ Check.wanted check row = true) :
    ∃ s', Steps (Check.next settings projectId) (s, .updating check todo held updated)
      (s', .updating check [] (todo.reverse ++ held) (todo.reverse ++ updated)) [] ∧
      s'.db = s.db ∧ ∀ r, s'.runs.get? r =
        if r ∈ todo then (s.runs.get? r).map fun row => { row with locked := true }
        else s.runs.get? r := by
  induction todo generalizing s held updated with
  | nil => exact ⟨s, .refl _, rfl, fun r => by simp⟩
  | cons runId todo ih =>
    obtain ⟨hnew, hnodup⟩ := List.nodup_cons.mp hnodup
    obtain ⟨row, hrow, hlocked, hwanted⟩ := hrows runId List.mem_cons_self
    have hproceed : Check.proceed settings
        ⟨projectId, .updating check (runId :: todo) held updated⟩ s =
          some (s.lockRun runId,
            .updating check todo (runId :: held) (runId :: updated), none) := by
      simp [Check.proceed, hrow, hlocked, hwanted]
    have hlock : ∀ r, (s.lockRun runId).runs.get? r = if r = runId then
        (s.runs.get? r).map fun row => { row with locked := true } else s.runs.get? r :=
      fun r => get?_modifyRun s runId r _
    have hrows' : ∀ r ∈ todo, ∃ row, (s.lockRun runId).runs.get? r = some row ∧
        row.locked = false ∧ Check.wanted check row = true := by
      intro r hr
      have hne : r ≠ runId := fun he => hnew (he ▸ hr)
      rw [hlock, if_neg hne]
      exact hrows r (List.mem_cons_of_mem _ hr)
    obtain ⟨s', hsteps, hdb, hruns⟩ := ih (runId :: held) (runId :: updated) hnodup hrows'
    refine ⟨s', .silent (next_of_proceed hproceed) ?_, hdb, fun r => ?_⟩
    · simpa using hsteps
    · rw [hruns, hlock]
      by_cases hr : r = runId
      · subst hr
        simp [hnew]
      · simp [hr]

/-- The check schedules `prerun_check` for the runs that it has queued. -/
theorem steps_committed (newRuns : List RunId) :
    Steps (Check.next settings projectId) (s, .committed newRuns) (s, .ended) newRuns := by
  induction newRuns with
  | nil => exact .silent rfl (.refl _)
  | cons runId newRuns ih =>
    have hnext : Check.next settings projectId (s, .committed (runId :: newRuns)) =
        some ((s, .committed newRuns), [runId]) := rfl
    exact .step hnext ih

theorem nodup_findRuns (s : Server) (projectId : ProjectId) (p : RunRow → Bool) :
    (s.findRuns projectId p).Nodup :=
  s.runs.nodup_keys.sublist (List.filter_sublist.map _)

/-- The way of a check to the runs that it queues or marks as failed. -/
theorem steps_found {check : SizeCheck}
    (hcheck : checkProjectEncodingSize settings s.db projectId = .ok check)
    (hinvalid : ∀ dpId ∈ check.invalid, s.db.uploadsOf dpId ≠ []) :
    ∃ db, Steps (Check.next settings projectId) (s, .ready) ({ s with db := db },
      .updating check (s.findRuns projectId (Check.wanted check)) [] []) [] ∧
      db.projects = s.db.projects := by
  have hproceed : Check.proceed settings ⟨projectId, .ready⟩ s =
      some (s, .sized check check.invalid, none) := by
    simp [Check.proceed, hcheck, committed, Except.toOption]
  obtain ⟨db, hsteps, hprojects⟩ := steps_invalid settings projectId check hinvalid
  refine ⟨db, .silent (next_of_proceed hproceed) ?_, hprojects⟩
  have hfound := hsteps.trans (.silent rfl (.refl _))
  exact hfound

section Commit
variable (c : Check) (check : SizeCheck) (held updated : List RunId)

theorem getProjectEncodingSize_commit {row : ProjectRow}
    (hproject : s.db.findProject c.projectId = some row) :
    (c.commit s check held updated).db.getProjectEncodingSize c.projectId =
      (check.setSize <|> s.db.getProjectEncodingSize c.projectId) := by
  rw [db_commit]
  unfold Database.getProjectEncodingSize
  cases check.setSize with
  | none => simp
  | some size =>
    have hset := Database.findProject_setProjectEncodingSize s.db c.projectId c.projectId size
    rw [hproject] at hset
    simp only [Option.elim, hset]
    simp

theorem change_unlocked {row : RunRow} (hlocked : row.locked = false) :
    { Check.change check { row with locked := true } with locked := false } =
      Check.change check row := by
  obtain ⟨project, state, stage, type, locked⟩ := row
  obtain rfl : locked = false := hlocked
  unfold Check.change
  split_ifs <;> rfl

end Commit
theorem ends_of_check {check : SizeCheck} {row : ProjectRow}
    (hunlocked : Unlocked s projectId)
    (hcheck : checkProjectEncodingSize settings s.db projectId = .ok check)
    (hinvalid : ∀ dpId ∈ check.invalid, s.db.uploadsOf dpId ≠ [])
    (hproject : s.db.findProject projectId = some row) :
    ∃ s' newRuns, Check.Ends settings projectId s s' newRuns ∧
      s'.db.getProjectEncodingSize projectId =
        (check.setSize <|> s.db.getProjectEncodingSize projectId) ∧
      (∀ r, s'.runs.get? r = (s.runs.get? r).map fun row =>
        if row.project = projectId ∧ Check.wanted check row then Check.change check row
        else row) ∧
      ∀ r, r ∈ newRuns ↔ check.raises = false ∧
        r ∈ s.findRuns projectId (Check.wanted check) := by
  obtain ⟨db, hfound, hprojects⟩ := steps_found hcheck hinvalid
  have hrows : ∀ r ∈ s.findRuns projectId (Check.wanted check), ∃ row,
      ({ s with db := db } : Server).runs.get? r = some row ∧ row.locked = false ∧
        Check.wanted check row = true := by
    intro r hr
    obtain ⟨row, hrow, hproject, hwanted⟩ := mem_findRuns.mp hr
    exact ⟨row, hrow, hunlocked r row hrow hproject, hwanted⟩
  obtain ⟨s₁, hlocks, hdb, hruns⟩ := steps_updating settings projectId check [] []
    (nodup_findRuns ..) hrows
  rw [List.append_nil] at hlocks
  generalize hall : (s.findRuns projectId (Check.wanted check)).reverse = all at hlocks
  have hcommit : Check.next settings projectId (s₁, .updating check [] all all) =
      some ((Check.commit ⟨projectId, .ready⟩ s₁ check all all,
        .committed (Check.newRuns check all)), []) := rfl
  have hsteps := (hfound.trans hlocks).trans (.silent hcommit (steps_committed _))
  have hmem : ∀ r, r ∈ all ↔ r ∈ s.findRuns projectId (Check.wanted check) := by
    intro r
    rw [← hall, List.mem_reverse]
  have hsame : s₁.db.findProject projectId = s.db.findProject projectId := by
    rw [hdb]
    simp only [Database.findProject, hprojects]
  refine ⟨_, _, hsteps, ?_, fun r => ?_, fun r => ?_⟩
  · have hsize := getProjectEncodingSize_commit ⟨projectId, .ready⟩ check all all
      (hsame.trans hproject)
    rw [hsize]
    simp only [Database.getProjectEncodingSize, hsame]
  · rw [runs_commit, get?_release, hruns]
    simp only [hmem]
    cases hrow : s.runs.get? r with
    | none => simp
    | some row =>
      have hfoundIff : r ∈ s.findRuns projectId (Check.wanted check) ↔
          row.project = projectId ∧ Check.wanted check row = true := by
        rw [mem_findRuns, hrow]
        simp
      by_cases hr : r ∈ s.findRuns projectId (Check.wanted check)
      · have hlocked := hunlocked r row hrow (hfoundIff.mp hr).1
        simp only [hr, if_true, Option.map_some, if_pos (hfoundIff.mp hr)]
        exact congrArg some (change_unlocked check hlocked)
      · simp only [hr, if_false, Option.map_some, mt hfoundIff.mpr hr]
  · unfold Check.newRuns
    cases check.raises <;> simp [hmem]

/-- A check that is past the encoding sizes has the result that it found in the first state. -/
def Checked (settings : Settings) (projectId : ProjectId) (s : Server) : CheckPhase → Prop
  | .pending | .ready => False
  | .sized check _ | .updating check _ _ _ =>
    checkProjectEncodingSize settings s.db projectId = .ok check
  | .committed _ | .ended => True

theorem checked_step {r r' : Server × CheckPhase} {newRuns : List RunId}
    (h : r = (s, .ready) ∨ Checked settings projectId s r.2)
    (hnext : Check.next settings projectId r = some (r', newRuns)) :
    r' = (s, .ready) ∨ Checked settings projectId s r'.2 := by
  right
  obtain ⟨s₁, phase⟩ := r
  unfold Check.next at hnext
  dsimp only at hnext
  split at hnext
  case h_1 s₂ phase' newRun hproceed =>
    obtain rfl : ((s₂, phase') : Server × CheckPhase) = r' := by
      simp only [Option.some.injEq, Prod.mk.injEq] at hnext
      exact hnext.1
    have hstep : CheckStep settings ⟨projectId, phase⟩ s₁ .proceed s₂ phase' newRun :=
      checkStep_of_step hproceed
    rcases h with hready | hchecked
    · cases hready
      cases hstep with
      | checkSizes _ hcheck => exact hcheck
      | _ h => cases h
    · cases hstep with
      | testReady h | checkSizes h =>
        obtain rfl : phase = _ := h
        exact absurd hchecked id
      | commit | schedule | finish => trivial
      | _ h =>
        obtain rfl : phase = _ := h
        exact hchecked
  case h_2 =>
    obtain ⟨s₂, -, he⟩ := Option.map_eq_some_iff.mp hnext
    cases he
    trivial

/-- The check goes on to queue runs exactly if it accepts the encoding sizes. -/
theorem queues_iff (settings : Settings) {row : ProjectRow}
    (hproject : s.db.findProject projectId = some row)
    (hne : s.db.getUploadedEncodingSizes projectId ≠ []) :
    Check.Queues settings projectId s ↔ s.db.SizesAccepted settings projectId := by
  constructor
  · rintro ⟨s', check, todo, newRuns, hraises, hsteps⟩
    have hchecked := hsteps.invariant (fun _ _ _ => checked_step) (.inl rfl)
    have hcheck := hchecked.resolve_left (by simp)
    exact (Database.checkProjectEncodingSize_ok hcheck).1.mp hraises
  · intro haccepted
    have hfinds := Database.checkFinds settings hproject hne
    cases hcheck : checkProjectEncodingSize settings s.db projectId with
    | error e =>
      rw [hcheck] at hfinds
      exact absurd haccepted (hfinds.error settings).1
    | ok check =>
      rw [hcheck] at hfinds
      obtain ⟨db, hsteps, -⟩ := steps_found hcheck hfinds.uploadsOf_invalid
      exact ⟨_, check, _, _, (Database.checkProjectEncodingSize_ok hcheck).1.mpr haccepted, hsteps⟩

theorem ends_unique {s₁ s₂ : Server} {newRuns₁ newRuns₂ : List RunId}
    (h₁ : Check.Ends settings projectId s s₁ newRuns₁)
    (h₂ : Check.Ends settings projectId s s₂ newRuns₂) : s₁ = s₂ ∧ newRuns₁ = newRuns₂ := by
  obtain ⟨he, hnewRuns⟩ := h₁.unique h₂ rfl rfl
  exact ⟨congrArg Prod.fst he, hnewRuns⟩

/-- What the check does with the runs if it accepts the encoding sizes, and if it does not. -/
structure RunsChecked (accepted : Prop) (projectId : ProjectId) (s s' : Server)
    (newRuns : List RunId) : Prop where
  queued : accepted → ∀ runId row, s.runs.get? runId = some row → row.project = projectId →
    row.state = .created → s'.runs.get? runId = some (queueRun row) ∧ runId ∈ newRuns
  idle : ¬ accepted → newRuns = [] ∧ ∀ runId row, s'.runs.get? runId = some row →
    row.state = .queued → s.runs.get? runId = some row

theorem runsChecked_of_check {check : SizeCheck} {newRuns : List RunId}
    (hruns : ∀ r, s'.runs.get? r = (s.runs.get? r).map fun row =>
      if row.project = projectId ∧ Check.wanted check row then Check.change check row else row)
    (hnew : ∀ r, r ∈ newRuns ↔ check.raises = false ∧
      r ∈ s.findRuns projectId (Check.wanted check)) :
    RunsChecked (check.raises = false) projectId s s' newRuns := by
  constructor
  · intro hraises runId row hrow hproject hstate
    have hwanted : Check.wanted check row = true := by simp [Check.wanted, hstate]
    have hfound := mem_findRuns.mpr ⟨row, hrow, hproject, hwanted⟩
    refine ⟨?_, (hnew runId).mpr ⟨hraises, hfound⟩⟩
    rw [hruns, hrow, Option.map_some, if_pos ⟨hproject, hwanted⟩]
    simp [Check.change, hraises]
  · intro hraises
    rw [Bool.not_eq_false] at hraises
    constructor
    · refine List.eq_nil_iff_forall_not_mem.mpr fun r hr => ?_
      have hfalse := ((hnew r).mp hr).1
      simp [hraises] at hfalse
    · intro runId row' hrow' hqueued
      rw [hruns] at hrow'
      obtain ⟨row, hrow, rfl⟩ := Option.map_eq_some_iff.mp hrow'
      split_ifs at hqueued ⊢ with hchanged
      · simp [Check.change, hraises, markFailure] at hqueued
      · exact hrow

theorem exists_ends (settings : Settings) {row : ProjectRow}
    (hproject : s.db.findProject projectId = some row)
    (hne : s.db.getUploadedEncodingSizes projectId ≠ []) (hunlocked : Unlocked s projectId) :
    ∃ s' newRuns, Check.Ends settings projectId s s' newRuns ∧
      s'.db.getProjectEncodingSize projectId = s.db.sizeLeft projectId ∧
      RunsChecked (s.db.SizesAccepted settings projectId) projectId s s' newRuns := by
  have hfinds := Database.checkFinds settings hproject hne
  cases hcheck : checkProjectEncodingSize settings s.db projectId with
  | error e =>
    rw [hcheck] at hfinds
    have hnext : Check.next settings projectId (s, .ready) = some ((s, .ended), []) := by
      simp [Check.next, Check.proceed, hcheck, committed, Except.toOption, Check.raise]
    obtain ⟨hrejected, hleft⟩ := hfinds.error settings
    refine ⟨s, [], .silent hnext (.refl _), hleft.symm, ?_, ?_⟩
    · exact fun haccepted => absurd haccepted hrejected
    · exact fun _ => ⟨rfl, fun _ _ hrow _ => hrow⟩
  | ok check =>
    rw [hcheck] at hfinds
    obtain ⟨s', newRuns, hends, hsize, hruns, hnew⟩ :=
      ends_of_check hunlocked hcheck hfinds.uploadsOf_invalid hproject
    refine ⟨s', newRuns, hends, hsize.trans hfinds.setSize, ?_⟩
    rw [← (Database.checkProjectEncodingSize_ok hcheck).1]
    exact runsChecked_of_check hruns hnew

end Alone
/-- What `check_for_executable_runs` should do: queue the runs of a consistent project, which has
the expected encoding size then, and otherwise leave the size alone and queue no run. -/
structure QueuesConsistent (settings : Settings) (projectId : ProjectId) (s s' : Server)
    (newRuns : List RunId) : Prop where
  queues : Check.Queues settings projectId s ↔ s.db.Consistent settings projectId
  commits : s.db.Consistent settings projectId →
    s'.db.getProjectEncodingSize projectId = s.db.expectedSize projectId
  keeps : ¬ s.db.Consistent settings projectId →
    s'.db.getProjectEncodingSize projectId = s.db.getProjectEncodingSize projectId
  runs : RunsChecked (s.db.Consistent settings projectId) projectId s s' newRuns

/-- The check does so exactly if a project without an encoding size, whose uploads are all of one
size, can commit to that size, and no size of zero is taken for a missing one. -/
theorem queuesConsistent_iff (settings : Settings) (s : Server) (projectId : ProjectId)
    {row : ProjectRow} (hproject : s.db.findProject projectId = some row)
    (hne : s.db.getUploadedEncodingSizes projectId ≠ []) (hunlocked : Unlocked s projectId) :
    (∃ s' newRuns, Check.Ends settings projectId s s' newRuns ∧
      QueuesConsistent settings projectId s s' newRuns) ↔ s.db.CommitSafe settings projectId := by
  obtain ⟨s', newRuns, hends, hleft, hruns⟩ := exists_ends settings hproject hne
    hunlocked
  have hqueues := queues_iff settings hproject hne
  rw [← Database.commitSafe_iff hne]
  constructor
  · rintro ⟨s₁, newRuns₁, hends₁, hgood⟩
    obtain ⟨rfl, rfl⟩ := ends_unique hends hends₁
    rw [← hleft]
    exact ⟨hqueues.symm.trans hgood.queues, hgood.commits, hgood.keeps⟩
  · rintro ⟨haccepted, hcommits, hkeeps⟩
    rw [← hleft] at hcommits hkeeps
    rw [haccepted] at hruns
    exact ⟨s', newRuns, hends, hqueues.trans haccepted, hcommits, hkeeps, hruns⟩

/-- A project without an encoding size, two uploads of one size and a run. -/
def sizedServer (size : ℤ) : Server where
  db := { Views.twoProjects with
    dataproviders := [⟨1, "a", .done, "p"⟩, ⟨2, "b", .done, "p"⟩]
    uploads := [⟨1, "x", none, .ready, some size, 2, 1⟩, ⟨2, "y", none, .ready, some size, 2, 1⟩] }
  runs := Dict.empty.set "r" ⟨"p", .created, 1, .default, false⟩
  cache := Dict.empty

theorem unlocked_sizedServer (size : ℤ) : Unlocked (sizedServer size) "p" := by
  intro runId row hrow _
  have hentries : (sizedServer size).runs.entries =
    [("r", ⟨"p", .created, 1, .default, false⟩)] := rfl
  have hmem := Dict.get?_eq_some.mp hrow
  rw [hentries, List.mem_singleton] at hmem
  cases hmem
  rfl

theorem queuesConsistent_eightBytes : ∃ s' newRuns,
    Check.Ends Tasks.defaultSettings "p" (sizedServer 8) s' newRuns ∧
      QueuesConsistent Tasks.defaultSettings "p" (sizedServer 8) s' newRuns := by
  have hne : (sizedServer 8).db.getUploadedEncodingSizes "p" ≠ [] := by decide
  have hagree : (sizedServer 8).db.Agree "p" (some 8) := by decide
  refine (queuesConsistent_iff Tasks.defaultSettings (sizedServer 8) "p" rfl hne
    (unlocked_sizedServer 8)).mpr ?_
  rw [Database.commitSafe_iff_of_agree hne hagree]
  decide

/-- Uploads of 20 bytes leave the project with a size that no upload may have. -/
theorem not_queuesConsistent_twentyBytes :
    (∃ s' newRuns, Check.Ends Tasks.defaultSettings "p" (sizedServer 20) s' newRuns ∧
      s'.db.getProjectEncodingSize "p" = some 20) ∧
    ¬ ∃ s' newRuns, Check.Ends Tasks.defaultSettings "p" (sizedServer 20) s' newRuns ∧
      QueuesConsistent Tasks.defaultSettings "p" (sizedServer 20) s' newRuns := by
  have hne : (sizedServer 20).db.getUploadedEncodingSizes "p" ≠ [] := by decide
  have hagree : (sizedServer 20).db.Agree "p" (some 20) := by decide
  have hproject : (sizedServer 20).db.findProject "p" =
    some ⟨"p", none, none, 2, .groups, false, false⟩ := rfl
  obtain ⟨s', newRuns, hends, hleft, -⟩ := exists_ends Tasks.defaultSettings
    hproject hne (unlocked_sizedServer 20)
  have hsize : s'.db.getProjectEncodingSize "p" = some 20 := by
    rw [hleft]
    decide
  refine ⟨⟨s', newRuns, hends, hsize⟩, ?_⟩
  rintro ⟨s₁, newRuns₁, hends₁, hgood⟩
  obtain ⟨rfl, rfl⟩ := ends_unique hends hends₁
  have hinconsistent : ¬ (sizedServer 20).db.Consistent Tasks.defaultSettings "p" := by
    rintro ⟨size, -, hsizes, hacceptable⟩
    obtain rfl := Option.some.inj ((Database.agree_iff hne hagree _).mp hsizes)
    revert hacceptable
    decide
  have hkept := hgood.keeps hinconsistent
  rw [hsize] at hkept
  revert hkept
  decide

end EntityService.Service
