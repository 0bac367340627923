import EntityService.Service.LifeCycle

/-! Runs that nothing works on any more. A run that is queued or running has a task that leads it
on or will record its failure, as long as no task fails without an error callback that knows the
run. -/
namespace EntityService.Service
open Lib Cache

/-- The failure of the task is recorded, or the task does not fail: only the tasks of a chord and
its body have an error callback that knows the run. No `prerun_check` finds the row locked. -/
def reported (s : Server) : Process → Action → Bool
  | .check c, .raise =>
    match c.phase with
    | .committed _ => false
    | _ => true
  | .runTask (.aggregateComparisons _ _ _ _), .raise => true
  | .runTask _, .raise => false
  | .runTask (.prerunCheck _ runId .missing), .proceed => !s.locked runId
  | _, _ => true

/-- The process has nothing left to do for the run. -/
def Idle (runId : RunId) : Process → Bool
  | .check c =>
    match c.phase with
    | .updating _ todo held _ => runId ∉ todo ∧ runId ∉ held
    | .committed newRuns => runId ∉ newRuns
    | _ => true
  | .runTask t => t.run = some runId → t.hasEnded
  | _ => true

/-- A run that nothing works on has not been started or is finished. -/
def NotHanging (runId : RunId) (p : Pool Server Process) : Prop :=
  (∀ t ∈ p.processes, Idle runId t) → ∀ row, p.shared.runs.get? runId = some row →
    row.state = .created ∨ row.state = .completed ∨ row.state = .error

/-- The process has yet to test whether the run is missing in the cache, and will go on if so. -/
def Waiting (runId : RunId) : Process → Prop
  | .check c => ∃ newRuns, c.phase = .committed newRuns ∧ runId ∈ newRuns
  | .runTask (.prerunCheck _ r phase) =>
    r = runId ∧ (phase = .pending ∨ phase = .missing ∨ phase = .locked)
  | _ => False

/-- A task leads the run on, or will record its failure. -/
structure Driven (runId : RunId) (p : Pool Server Process) : Prop where
  one : p.total (leadsTo .queued runId) + p.total (leadsTo .comparing runId) +
    p.total (leadsTo .aggregated runId) + p.total (leadsTo .completed runId) ≤ 1
  waiting : ∀ t ∈ p.processes, Waiting runId t → isRunMissing (p.shared.hash runId) = true
  notQueued : (∀ row, p.shared.runs.get? runId = some row → row.state = .created) →
    (∀ m, p.total (leadsTo m runId) = 0) ∧ isRunMissing (p.shared.hash runId) = true
  queued : ∀ row, p.shared.runs.get? runId = some row → row.state = .queued →
    0 < p.total (leadsTo .queued runId)
  running : ∀ row, p.shared.runs.get? runId = some row → row.state = .running →
    0 < p.total (leadsTo .comparing runId) + p.total (leadsTo .aggregated runId) +
      p.total (recovers runId)

theorem leadsTo_of_waiting {runId : RunId} {t : Process} (h : Waiting runId t) :
    0 < leadsTo .queued runId t := by
  cases t with
  | check c =>
    obtain ⟨newRuns, hphase, hmem⟩ := h
    simpa only [leadsTo, hphase, if_true] using List.count_pos_iff.mpr hmem
  | runTask t =>
    cases t with
    | prerunCheck projectId r phase =>
      obtain ⟨rfl, rfl | rfl | rfl⟩ := h <;> simp [leadsTo, RunTask.milestone]
    | _ => exact h.elim
  | _ => exact h.elim

theorem tokens_of_hasEnded {t : RunTask} (h : t.hasEnded = true) (runId : RunId) :
    t.milestone = none ∧ recovers runId (.runTask t) = 0 := by
  cases t with
  | chord projectId r headers =>
    have hall : ∀ phase ∈ headers, phase.hasReturned = true ∨ phase = .failed := by
      simpa [RunTask.hasEnded] using h
    by_cases hfailed : .failed ∈ headers
    · have hspoiled : headers.any HeaderPhase.Spoiled = true :=
        List.any_eq_true.mpr ⟨_, hfailed, rfl⟩
      simp [RunTask.milestone, recovers, hspoiled, hfailed]
    · have hreturned : headers.all HeaderPhase.hasReturned = true :=
        List.all_eq_true.mpr fun phase hphase =>
          (hall phase hphase).resolve_right fun hp => hfailed (hp ▸ hphase)
      simp [RunTask.milestone, recovers, hreturned]
  | aggregateComparisons projectId r complete phase =>
    rw [show RunTask.aggregateComparisons projectId r complete phase = _ from of_decide_eq_true h]
    cases complete <;> exact ⟨rfl, rfl⟩
  | runFailedHandler r phase =>
    rw [show RunTask.runFailedHandler r phase = _ from of_decide_eq_true h]
    cases r <;> exact ⟨rfl, rfl⟩
  | _ =>
    rw [show _ = RunTask.ended _ from of_decide_eq_true h]
    exact ⟨rfl, rfl⟩

theorem tokens_of_idle {runId : RunId} {t : Process} (h : Idle runId t) :
    (∀ m, leadsTo m runId t = 0) ∧ recovers runId t = 0 := by
  cases t with
  | check c =>
    refine ⟨fun m => ?_, rfl⟩
    unfold leadsTo
    dsimp only
    split
    case h_1 newRuns hphase =>
      have hmem : runId ∉ newRuns := by simpa [Idle, hphase] using h
      rw [List.count_eq_zero.mpr hmem, ite_self]
    case h_2 => rfl
  | runTask t =>
    by_cases hrun : t.run = some runId
    · have hended : t.hasEnded = true := by simpa [Idle, hrun] using h
      obtain ⟨hmilestone, hrecovers⟩ := tokens_of_hasEnded hended runId
      exact ⟨fun m => by simp [leadsTo, hmilestone], hrecovers⟩
    · obtain ⟨hleads, -, hrecovers⟩ := tokens_eq_zero hrun
      exact ⟨hleads, hrecovers⟩
  | _ => exact ⟨fun _ => rfl, rfl⟩

section Step
variable {settings : Settings} {s s' : Server} {t t' : Process} {a : Action}
  {before after started : List Process} {runId : RunId}

/-- The state of a run in the cache is set by its `prerun_check` and at its completion. -/
theorem hash_step (hstep : ServiceStep settings s t a s' t' started) (runId : RunId) :
    s'.hash runId = s.hash runId ∨
      0 < leadsTo .queued runId t + leadsTo .completed runId t ∧
        ∀ u ∈ t' :: started, ¬ Waiting runId u := by
  have hset : ∀ r hash, runId ≠ r → (s.setHash r hash).hash runId = s.hash runId := by
    intro r hash hr
    unfold Server.hash Server.setHash
    rw [Dict.get?_set_of_ne _ _ hr]
  cases hstep with
  | request | uploadTask => exact .inl rfl
  | post h => cases h <;> exact .inl rfl
  | check h =>
    cases h with
    | commit =>
      left
      rw [Server.hash, cache_commit]
      rfl
    | _ => exact .inl rfl
  | runTask h =>
    cases h with
    | @activate projectId r =>
      by_cases hr : runId = r
      · subst hr
        refine .inr ⟨by simp [leadsTo, RunTask.milestone], fun u hu => ?_⟩
        rw [List.mem_singleton.mp hu]
        rintro ⟨-, hphase⟩
        simp at hphase
      · exact .inl (hset _ _ hr)
    | @completeCached r =>
      by_cases hr : runId = r
      · subst hr
        refine .inr ⟨by simp [leadsTo, RunTask.milestone], fun u hu => ?_⟩
        rw [List.mem_singleton.mp hu]
        exact id
      · exact .inl (hset _ _ hr)
    | header _ hheader => cases hheader <;> exact .inl rfl
    | _ => exact .inl rfl

theorem waiting_runTaskStep {task task' u : RunTask} {next : List RunTask}
    (h : RunTaskStep s task a s' task' next) (hu : u ∈ task' :: next)
    (hwaiting : Waiting runId (.runTask u)) : Waiting runId (.runTask task) := by
  obtain ⟨projectId, phase, rfl, hphase⟩ : ∃ projectId phase,
      u = .prerunCheck projectId runId phase ∧
        (phase = .pending ∨ phase = .missing ∨ phase = .locked) := by
    cases u with
    | prerunCheck projectId r phase =>
      obtain ⟨rfl, hphase⟩ := hwaiting
      exact ⟨projectId, phase, rfl, hphase⟩
    | _ => exact hwaiting.elim
  cases h with
  | testMissing =>
    cases List.mem_singleton.mp hu
    exact ⟨rfl, .inl rfl⟩
  | lockRun =>
    cases List.mem_singleton.mp hu
    exact ⟨rfl, .inr (.inl rfl)⟩
  | skip | activate | commit | rollback =>
    cases List.mem_singleton.mp hu
    simp at hphase
  | start =>
    rcases List.mem_cons.mp hu with hu | hu
    · cases hu
      simp at hphase
    · simp at hu
  | header =>
    unfold chordSchedules at hu
    split_ifs at hu <;> simp at hu
  | schedule | followAggregation | followGroups => split_ifs at hu <;> simp at hu
  | fail =>
    cases task with
    | prerunCheck =>
      cases List.mem_singleton.mp hu
      simp at hphase
    | _ => simp [RunTask.ended, RunTask.errorCallback] at hu
  | _ => simp at hu

/-- A process waits after a step only if it did before, or if it has just queued the run. -/
theorem waiting_step (hstep : ServiceStep settings s t a s' t' started) {u : Process}
    (hu : u ∈ t' :: started) (hwaiting : Waiting runId u) :
    Waiting runId t ∨ ∃ c check held updated, t = .check c ∧
      c.phase = .updating check [] held updated ∧ runId ∈ Check.newRuns check updated := by
  have hpending : ∀ projectId, ¬ Waiting runId (.check ⟨projectId, .pending⟩) := by
    rintro projectId ⟨newRuns, hphase, -⟩
    cases hphase
  cases hstep with
  | request | uploadTask =>
    rcases List.mem_cons.mp hu with rfl | hu
    · exact hwaiting.elim
    · obtain ⟨schedule, -, rfl⟩ := List.mem_map.mp hu
      cases schedule with
      | checkForExecutableRuns projectId => exact absurd hwaiting (hpending projectId)
      | _ => exact hwaiting.elim
  | post =>
    rcases List.mem_cons.mp hu with rfl | hu
    · exact hwaiting.elim
    · split_ifs at hu
      · rw [List.mem_singleton.mp hu] at hwaiting
        exact absurd hwaiting (hpending _)
      · cases hu
  | @check c a s' phase newRun h =>
    cases h with
    | @commit check held updated h =>
      rw [List.mem_singleton.mp hu] at hwaiting
      obtain ⟨newRuns, hphase, hmem⟩ := hwaiting
      cases hphase
      exact .inr ⟨c, check, held, updated, rfl, h, hmem⟩
    | @schedule r newRuns h =>
      refine .inl ⟨_, h, ?_⟩
      rcases List.mem_cons.mp hu with rfl | hu
      · obtain ⟨newRuns', hphase, hmem⟩ := hwaiting
        cases hphase
        exact List.mem_cons_of_mem _ hmem
      · rw [List.mem_singleton.mp hu] at hwaiting
        rw [hwaiting.1]
        exact List.mem_cons_self
    | testReady =>
      rw [List.mem_singleton.mp hu] at hwaiting
      obtain ⟨newRuns, hphase, -⟩ := hwaiting
      dsimp only at hphase
      split_ifs at hphase
    | _ =>
      rw [List.mem_singleton.mp hu] at hwaiting
      obtain ⟨newRuns, hphase, -⟩ := hwaiting
      cases hphase
  | runTask h =>
    rw [← List.map_cons] at hu
    obtain ⟨v, hv, rfl⟩ := List.mem_map.mp hu
    exact .inl (waiting_runTaskStep h hv hwaiting)

/-- A step that leaves the run created found it so. -/
theorem created_of_tokenStep (h : TokenStep runId s t a s' t' started)
    (hcreated : ∀ row, s'.runs.get? runId = some row → row.state = .created) :
    ∀ row, s.runs.get? runId = some row → row.state = .created := by
  have hchange : ∀ f : RunRow → RunRow, ChangesRun runId s s' f →
      (∀ row, (f row).state = .created → row.state = .created) →
        ∀ row, s.runs.get? runId = some row → row.state = .created := by
    intro f hf hback row hrow
    obtain ⟨row', hrow', halike⟩ := hf.exists hrow
    exact hback row ((unlocked_eq halike).2.1 ▸ hcreated row' hrow')
  cases h with
  | keep hrow | lose hrow | spoil hrow => exact hchange _ hrow fun _ => id
  | post _ _ _ hnone =>
    intro row hrow
    rw [hnone] at hrow
    cases hrow
  | change _ _ _ _ hrow =>
    refine hchange _ hrow fun row hstate => ?_
    unfold Check.change at hstate
    split_ifs at hstate <;> cases hstate
  | aggregate _ _ hrow =>
    refine hchange _ hrow fun row hstate => ?_
    split_ifs at hstate <;> exact hstate
  | begin _ hrow | complete _ hrow | fail _ hrow => exact hchange _ hrow nofun

theorem leadsTo_of_ne {m m' : Milestone} (h : 0 < leadsTo m runId t) (hne : m' ≠ m) :
    leadsTo m' runId t = 0 := by
  cases t with
  | check c =>
    unfold leadsTo at h ⊢
    dsimp only at h ⊢
    split at h
    case h_1 newRuns hphase =>
      have hm : m = .queued := by
        by_contra hm
        rw [if_neg hm] at h
        cases h
      rw [hm] at hne
      simp only [if_neg hne]
    case h_2 => rfl
  | runTask task =>
    unfold leadsTo at h ⊢
    dsimp only at h ⊢
    split_ifs at h with hm
    · refine if_neg fun hm' => hne ?_
      rw [hm] at hm'
      cases hm'
      rfl
    · cases h
  | _ => rfl

/-- What leads a run on to be compared, or shows that it cannot be completed, has seen it begin. -/
theorem leadsTo_queued_of_begun
    (h : 0 < leadsTo .comparing runId t + leadsTo .aggregated runId t + spoils runId t) :
    leadsTo .queued runId t = 0 := by
  by_contra hne
  have hpos := Nat.pos_of_ne_zero hne
  have hcomparing : leadsTo .comparing runId t = 0 := leadsTo_of_ne hpos nofun
  have haggregated : leadsTo .aggregated runId t = 0 := leadsTo_of_ne hpos nofun
  rw [hcomparing, haggregated, Nat.add_zero, Nat.zero_add] at h
  cases t with
  | runTask task =>
    cases task with
    | chord =>
      unfold leadsTo RunTask.milestone at hpos
      dsimp only at hpos
      split_ifs at hpos with hspoiled hqueued <;> simp at *
    | aggregateComparisons _ _ complete phase =>
      cases complete with
      | false => cases phase <;> simp [leadsTo, RunTask.milestone] at hpos
      | true => cases h
    | runFailedHandler => simp [leadsTo, RunTask.milestone] at hpos
    | _ => cases h
  | _ => cases h

/-- The run is queued by its check at most once, and only while it is created. -/
theorem driven_change {c : Check} {check : SizeCheck} {held updated : List RunId}
    (hfound : Found s (.check c)) (hholds : holds runId (.check c) ≤ 1)
    (hphase : c.phase = .updating check [] held updated)
    (hmem : runId ∈ Check.newRuns check updated) :
    check.raises = false ∧ (Check.newRuns check updated).count runId ≤ 1 ∧
      (∃ row, s.runs.get? runId = some row ∧ row.state = .created) ∧
      ∀ row, s.runs.get? runId = some row → row.state = .created := by
  have hraises : check.raises = false := by
    unfold Check.newRuns at hmem
    split_ifs at hmem with hraises
    · cases hmem
    · simpa using hraises
  have hnew : Check.newRuns check updated = updated := by simp [Check.newRuns, hraises]
  rw [hnew] at hmem ⊢
  obtain ⟨hsub, hcreated⟩ := hfound check [] held updated hphase
  obtain ⟨row, hrow, hstate⟩ := hcreated runId hmem hraises
  simp only [holds, hphase] at hholds
  refine ⟨hraises, (hsub.count_le runId).trans hholds, ⟨row, hrow, hstate⟩, fun row' hrow' => ?_⟩
  obtain rfl := Option.some.inj (hrow.symm.trans hrow')
  exact hstate

theorem leadsTo_step (hfound : Found s t) (hholds : holds runId t ≤ 1)
    (hstep : ServiceStep settings s t a s' t' started)
    (hzero : ∀ m, Pool.total (leadsTo m runId) ⟨s, before ++ t :: after⟩ = 0)
    (hcreated : ∀ row, s'.runs.get? runId = some row → row.state = .created) (m : Milestone) :
    Pool.total (leadsTo m runId) ⟨s', before ++ t' :: after ++ started⟩ = 0 := by
  have hself : ∀ m, leadsTo m runId t = 0 := fun m =>
    Pool.total_eq_zero.mp (hzero m) t List.mem_append_cons_self
  have hm := total_stepTotal (leadsTo m runId) s s' before after started t t'
  rw [hzero m, hself m, Nat.zero_add, Nat.add_zero] at hm
  rw [hm]
  cases tokenStep_of_step hfound hstep runId with
  | keep _ hleads => rw [hleads, hself]
  | lose _ hleads | spoil _ _ hleads | fail _ _ hleads => exact hleads m
  | post _ _ _ _ _ hleads => exact hleads m
  | change ht hphase _ _ hrow hleads =>
    subst ht
    rw [hleads]
    split_ifs
    · refine List.count_eq_zero.mpr fun hmem => ?_
      obtain ⟨hraises, -, ⟨row, hget, -⟩, -⟩ := driven_change hfound hholds hphase hmem
      obtain ⟨row', hrow', halike⟩ := hrow.exists hget
      have hstate := (unlocked_eq halike).2.1
      rw [hcreated row' hrow', Check.change, if_neg (by simp [hraises])] at hstate
      cases hstate
    · rfl
  | begin hbefore | complete hbefore =>
    rw [hself] at hbefore
    cases hbefore
  | aggregate ht =>
    have hpos := hself .comparing
    subst ht
    simp [leadsTo, RunTask.milestone] at hpos

/-- Nor is it in the cache. -/
theorem notQueued_step (hfound : Found s t) (hholds : holds runId t ≤ 1)
    (hstep : ServiceStep settings s t a s' t' started)
    (h : Driven runId ⟨s, before ++ t :: after⟩)
    (hcreated : ∀ row, s'.runs.get? runId = some row → row.state = .created) :
    (∀ m, Pool.total (leadsTo m runId) ⟨s', before ++ t' :: after ++ started⟩ = 0) ∧
      isRunMissing (s'.hash runId) = true := by
  have htoken := tokenStep_of_step hfound hstep runId
  obtain ⟨hzero, hmissing⟩ := h.notQueued (created_of_tokenStep htoken hcreated)
  refine ⟨leadsTo_step hfound hholds hstep hzero hcreated, ?_⟩
  have hself : ∀ m, leadsTo m runId t = 0 := fun m =>
    Pool.total_eq_zero.mp (hzero m) t List.mem_append_cons_self
  rcases hash_step hstep runId with hhash | ⟨hpos, -⟩
  · rw [hhash]
    exact hmissing
  · rw [hself, hself] at hpos
    cases hpos

/-- The run has at most one task that leads it on, if a run that is created has none. -/
theorem one_step (hfound : Found s t) (hholds : holds runId t ≤ 1)
    (hstep : ServiceStep settings s t a s' t' started)
    (hone : Pool.total (leadsTo .queued runId) ⟨s, before ++ t :: after⟩ +
      Pool.total (leadsTo .comparing runId) ⟨s, before ++ t :: after⟩ +
      Pool.total (leadsTo .aggregated runId) ⟨s, before ++ t :: after⟩ +
      Pool.total (leadsTo .completed runId) ⟨s, before ++ t :: after⟩ ≤ 1)
    (hzero : (∀ row, s.runs.get? runId = some row → row.state = .created) →
      ∀ m, Pool.total (leadsTo m runId) ⟨s, before ++ t :: after⟩ = 0) :
    Pool.total (leadsTo .queued runId) ⟨s', before ++ t' :: after ++ started⟩ +
      Pool.total (leadsTo .comparing runId) ⟨s', before ++ t' :: after ++ started⟩ +
      Pool.total (leadsTo .aggregated runId) ⟨s', before ++ t' :: after ++ started⟩ +
      Pool.total (leadsTo .completed runId) ⟨s', before ++ t' :: after ++ started⟩ ≤ 1 := by
  have hm := fun m => total_stepTotal (leadsTo m runId) s s' before after started t t'
  have hqueued := hm .queued
  have hcomparing := hm .comparing
  have haggregated := hm .aggregated
  have hcompleted := hm .completed
  cases tokenStep_of_step hfound hstep runId with
  | keep _ hleads =>
    rw [hleads] at hqueued hcomparing haggregated hcompleted
    omega
  | lose _ hleads | spoil _ _ hleads | fail _ _ hleads =>
    rw [hleads] at hqueued hcomparing haggregated hcompleted
    omega
  | post _ _ _ _ _ hleads =>
    rw [hleads] at hqueued hcomparing haggregated hcompleted
    omega
  | @change c check held updated ht hphase _ _ hrow hleads =>
    subst ht
    rw [hleads] at hqueued hcomparing haggregated hcompleted
    simp only [if_true, reduceCtorEq, if_false] at hqueued hcomparing haggregated hcompleted
    by_cases hmem : runId ∈ Check.newRuns check updated
    · obtain ⟨-, hcount, -, hcreated⟩ := driven_change hfound hholds hphase hmem
      have hnone := hzero hcreated
      rw [hnone] at hqueued hcomparing haggregated hcompleted
      omega
    · rw [List.count_eq_zero.mpr hmem] at hqueued
      omega
  | begin hbefore _ hleads | complete hbefore _ hleads =>
    rw [hleads] at hqueued hcomparing haggregated hcompleted
    simp only [if_true, reduceCtorEq, if_false] at hqueued hcomparing haggregated hcompleted
    omega
  | aggregate ht _ _ hleads =>
    rw [hleads] at hqueued hcomparing haggregated hcompleted
    have hbefore : leadsTo .comparing runId t = 1 := by
      subst ht
      simp [leadsTo, RunTask.milestone]
    simp only [if_true, reduceCtorEq, if_false] at hqueued hcomparing haggregated hcompleted
    omega

/-- A process that has yet to go on is not lost, unless it has seen the run finished. -/
theorem not_lost (hok : reported s t a = true) (hlost : Lost runId s t a)
    (hwaiting : Waiting runId t → isRunMissing (s.hash runId) = true) :
    (leadsTo .queued runId t = 0 ∨ ∃ row, s.runs.get? runId = some row ∧
      row.state ∈ [RunState.running, .completed, .error]) ∧
      leadsTo .comparing runId t + leadsTo .aggregated runId t + recovers runId t = 0 := by
  cases hlost with
  | @raised task ha ht haggregate =>
    subst ha ht
    cases task with
    | aggregateComparisons => exact absurd rfl (haggregate _ _ _ _)
    | _ => cases hok
  | unscheduled ha ht hphase =>
    subst ha ht
    simp [reported, hphase] at hok
  | cached ht hcached =>
    subst ht
    rw [hwaiting ⟨rfl, .inl rfl⟩] at hcached
    cases hcached
  | @skipped projectId row ha ht hrow hstarted =>
    subst ha ht
    refine ⟨.inr ⟨row, hrow, hstarted.resolve_left ?_⟩, by simp [leadsTo, RunTask.milestone,
      recovers]⟩
    have hlocked : s.locked runId = false := by simpa [reported] using hok
    rw [locked_of_get? hrow] at hlocked
    simp [hlocked]
  | finished ht =>
    subst ht
    exact ⟨.inl (by simp [leadsTo, RunTask.milestone]), by simp [leadsTo, RunTask.milestone,
      recovers]⟩

theorem queued_step (hok : reported s t a = true) (hfound : Found s t) (hholds : holds runId t ≤ 1)
    (hstep : ServiceStep settings s t a s' t' started)
    (h : Driven runId ⟨s, before ++ t :: after⟩) {row' : RunRow}
    (hrow' : s'.runs.get? runId = some row') (hstate' : row'.state = .queued) :
    0 < Pool.total (leadsTo .queued runId) ⟨s', before ++ t' :: after ++ started⟩ := by
  have hm := total_stepTotal (leadsTo .queued runId) s s' before after started t t'
  have hbefore : ∀ f : RunRow → RunRow, ChangesRun runId s s' f →
      ∃ row, s.runs.get? runId = some row ∧ (f row).state = .queued := by
    intro f hf
    obtain ⟨row, hrow, halike⟩ := hf.exists_before hrow'
    exact ⟨row, hrow, (unlocked_eq halike).2.1 ▸ hstate'⟩
  cases tokenStep_of_step hfound hstep runId with
  | keep hchange hleads =>
    obtain ⟨row, hrow, hstate⟩ := hbefore _ hchange
    have hpos := h.queued row hrow hstate
    rw [hleads] at hm
    omega
  | lose hchange hleads _ hlost =>
    obtain ⟨row, hrow, hstate⟩ := hbefore _ hchange
    have hpos := h.queued row hrow hstate
    rcases (not_lost hok hlost (h.waiting t List.mem_append_cons_self)).1 with
      hzero | ⟨row'', hrow'', hstarted⟩
    · rw [hleads, hzero] at hm
      omega
    · obtain rfl := Option.some.inj (hrow.symm.trans hrow'')
      rw [show row.state = .queued from hstate] at hstarted
      simp at hstarted
  | spoil hchange hbegun hleads =>
    obtain ⟨row, hrow, hstate⟩ := hbefore _ hchange
    have hpos := h.queued row hrow hstate
    rw [hleads, leadsTo_queued_of_begun hbegun] at hm
    omega
  | post _ _ _ _ hnew =>
    obtain rfl := Option.some.inj (hnew.symm.trans hrow')
    cases hstate'
  | @change c check held updated ht hphase hheld hupdated hchange hleads =>
    subst ht
    obtain ⟨row, hrow, hstate⟩ := hbefore _ hchange
    have hself : leadsTo .queued runId (.check c) = 0 := by simp [leadsTo, hphase]
    have hraises : check.raises = false := by
      unfold Check.change at hstate
      split_ifs at hstate with hraises
      · cases hstate
      · simpa using hraises
    have hpos : 0 < (Check.newRuns check updated).count runId := by
      rw [Check.newRuns, if_neg (by simp [hraises])]
      exact List.count_pos_iff.mpr hupdated
    rw [hleads, if_pos rfl] at hm
    omega
  | begin _ hchange | complete _ hchange | fail _ hchange =>
    obtain ⟨row, hrow, hstate⟩ := hbefore _ hchange
    cases hstate
  | aggregate ht _ hchange =>
    obtain ⟨row, hrow, hstate⟩ := hbefore _ hchange
    have hqueued : row.state = .queued := by
      split_ifs at hstate <;> exact hstate
    have hpos := h.queued row hrow hqueued
    have hone := h.one
    have hle := Pool.le_total (p := ⟨s, before ++ t :: after⟩) (f := leadsTo .comparing runId)
      List.mem_append_cons_self
    have hself : leadsTo .comparing runId t = 1 := by
      subst ht
      simp [leadsTo, RunTask.milestone]
    omega

/-- A running run has a task that leads it on, or that will record its failure. -/
theorem running_step (hok : reported s t a = true) (hfound : Found s t)
    (hstep : ServiceStep settings s t a s' t' started)
    (h : Driven runId ⟨s, before ++ t :: after⟩) {row' : RunRow}
    (hrow' : s'.runs.get? runId = some row') (hstate' : row'.state = .running) :
    0 < Pool.total (leadsTo .comparing runId) ⟨s', before ++ t' :: after ++ started⟩ +
      Pool.total (leadsTo .aggregated runId) ⟨s', before ++ t' :: after ++ started⟩ +
      Pool.total (recovers runId) ⟨s', before ++ t' :: after ++ started⟩ := by
  have hcomparing := total_stepTotal (leadsTo .comparing runId) s s' before after started t t'
  have haggregated := total_stepTotal (leadsTo .aggregated runId) s s' before after started t t'
  have hrecovering := total_stepTotal (recovers runId) s s' before after started t t'
  have hbefore : ∀ f : RunRow → RunRow, ChangesRun runId s s' f →
      ∃ row, s.runs.get? runId = some row ∧ (f row).state = .running := by
    intro f hf
    obtain ⟨row, hrow, halike⟩ := hf.exists_before hrow'
    exact ⟨row, hrow, (unlocked_eq halike).2.1 ▸ hstate'⟩
  cases tokenStep_of_step hfound hstep runId with
  | keep hchange hleads _ hrecovers =>
    obtain ⟨row, hrow, hstate⟩ := hbefore _ hchange
    have hpos := h.running row hrow hstate
    rw [hleads] at hcomparing haggregated
    omega
  | lose hchange hleads _ hlost =>
    obtain ⟨row, hrow, hstate⟩ := hbefore _ hchange
    have hpos := h.running row hrow hstate
    have hzero := (not_lost hok hlost (h.waiting t List.mem_append_cons_self)).2
    rw [hleads] at hcomparing haggregated
    omega
  | spoil hchange hbegun hleads hrecovers =>
    obtain ⟨row, hrow, hstate⟩ := hbefore _ hchange
    have hpos := h.running row hrow hstate
    rw [hleads] at hcomparing haggregated
    omega
  | post _ _ _ _ hnew =>
    obtain rfl := Option.some.inj (hnew.symm.trans hrow')
    cases hstate'
  | change _ _ _ _ hchange =>
    obtain ⟨row, hrow, hstate⟩ := hbefore _ hchange
    unfold Check.change at hstate
    split_ifs at hstate <;> cases hstate
  | begin _ _ hleads =>
    rw [hleads, if_pos rfl] at hcomparing
    have hle := Pool.le_total (p := ⟨s, before ++ t :: after⟩) (f := leadsTo .comparing runId)
      List.mem_append_cons_self
    omega
  | aggregate _ _ _ hleads =>
    rw [hleads, if_pos rfl] at haggregated
    have hle := Pool.le_total (p := ⟨s, before ++ t :: after⟩) (f := leadsTo .aggregated runId)
      List.mem_append_cons_self
    omega
  | complete _ hchange | fail _ hchange =>
    obtain ⟨row, hrow, hstate⟩ := hbefore _ hchange
    cases hstate

/-- Whoever tests whether the run is missing in the cache finds it so. -/
theorem waitingMissing_step (hfound : Found s t) (hholds : holds runId t ≤ 1)
    (hstep : ServiceStep settings s t a s' t' started)
    (h : Driven runId ⟨s, before ++ t :: after⟩) :
    ∀ u ∈ before ++ t' :: after ++ started, Waiting runId u →
      isRunMissing (s'.hash runId) = true := by
  have hself : ∀ u ∈ t' :: started, Waiting runId u → isRunMissing (s'.hash runId) = true := by
    intro u hu hwaiting
    rcases hash_step hstep runId with hhash | ⟨-, hnone⟩
    · rw [hhash]
      rcases waiting_step hstep hu hwaiting with
        hwaits | ⟨c, check, held, updated, rfl, hphase, hmem⟩
      · exact h.waiting t List.mem_append_cons_self hwaits
      · exact (h.notQueued (driven_change hfound hholds hphase hmem).2.2.2).2
    · exact absurd hwaiting (hnone u hu)
  refine Pool.forall_step (P := fun u => Waiting runId u → isRunMissing (s.hash runId) = true)
    h.waiting (fun u hu hmissing hwaiting => ?_) (fun _ => hself t' List.mem_cons_self)
    fun u hu => hself u (List.mem_cons_of_mem _ hu)
  rcases hash_step hstep runId with hhash | ⟨hpos, -⟩
  · rw [hhash]
    exact hmissing hwaiting
  · -- no other task leads the run on
    have hlead := leadsTo_of_waiting hwaiting
    have hone := h.one
    have hqueued := Pool.add_le_total (f := leadsTo .queued runId) (s := s) (t := t) hu
    have hcompleted := Pool.le_total (p := ⟨s, before ++ t :: after⟩)
      (f := leadsTo .completed runId) List.mem_append_cons_self
    omega

theorem driven_step (hok : reported s t a = true) (hfound : Found s t) (hholds : holds runId t ≤ 1)
    (hstep : ServiceStep settings s t a s' t' started)
    (h : Driven runId ⟨s, before ++ t :: after⟩) :
    Driven runId ⟨s', before ++ t' :: after ++ started⟩ :=
  ⟨one_step hfound hholds hstep h.one fun hcreated => (h.notQueued hcreated).1,
    waitingMissing_step hfound hholds hstep h,
    notQueued_step hfound hholds hstep h,
    fun _ hrow' hstate' => queued_step hok hfound hholds hstep h hrow' hstate',
    fun _ hrow' hstate' => running_step hok hfound hstep h hrow' hstate'⟩

end Step

section Reaches
variable {settings : Settings} {p₀ p : Pool Server Process} {runId : RunId}

theorem driven_of_reaches (hinit : ∀ t ∈ p₀.processes, t.Arriving)
    (hruns : p₀.shared.runs.entries = []) (hcache : p₀.shared.cache.entries = [])
    (h : Pool.Reaches ((service settings).restrict reported) p₀ p) (runId : RunId) :
    Driven runId p := by
  refine h.invariant (I := Driven runId) ?_ ?_
  · have hzero : ∀ m, p₀.total (leadsTo m runId) = 0 := fun m =>
      total_eq_zero_of_arriving hinit (fun _ _ => rfl) fun _ => rfl
    have hnone : p₀.shared.runs.get? runId = none := by
      rw [Dict.get?_eq_none, Dict.keys, hruns]
      exact List.not_mem_nil
    have hmissing : isRunMissing (p₀.shared.hash runId) = true := by
      have hnone : p₀.shared.cache.get? runId = none := by
        rw [Dict.get?_eq_none, Dict.keys, hcache]
        exact List.not_mem_nil
      rw [Server.hash, hnone]
      rfl
    refine ⟨by simp [hzero], fun _ _ _ => hmissing, fun _ => ⟨hzero, hmissing⟩, ?_, ?_⟩
    · rw [hnone]
      nofun
    · rw [hnone]
      nofun
  · rintro s before t after a s' t' started hreaches hdriven hprogram
    obtain ⟨hok, hprogram⟩ := Program.restrict_eq_some.mp hprogram
    have hfound := found_of_reaches (fun t ht => delivered_of_arriving (hinit t ht))
      hreaches.of_restrict t List.mem_append_cons_self
    exact driven_step hok hfound
      (holds_le_one hinit hreaches.of_restrict List.mem_append_cons_self runId)
      (serviceStep_of_step hprogram) hdriven

/-- As long as the failures are reported, no run is left queued or running with nothing that works
on it. -/
theorem notHanging_of_reported (hinit : ∀ t ∈ p₀.processes, t.Arriving)
    (hruns : p₀.shared.runs.entries = []) (hcache : p₀.shared.cache.entries = [])
    (h : Pool.Reaches ((service settings).restrict reported) p₀ p) (runId : RunId) :
    NotHanging runId p := by
  intro hidle row hrow
  have hdriven := driven_of_reaches hinit hruns hcache h runId
  have hleads : ∀ m, p.total (leadsTo m runId) = 0 := fun m =>
    Pool.total_eq_zero.mpr fun t ht => (tokens_of_idle (hidle t ht)).1 m
  have hrecovers : p.total (recovers runId) = 0 :=
    Pool.total_eq_zero.mpr fun t ht => (tokens_of_idle (hidle t ht)).2
  cases hstate : row.state with
  | created => exact .inl rfl
  | queued => exact absurd (hdriven.queued row hrow hstate) (by simp [hleads])
  | running => exact absurd (hdriven.running row hrow hstate) (by simp [hleads, hrecovers])
  | completed => exact .inr (.inl rfl)
  | error => exact .inr (.inr rfl)

end Reaches

/-- Both uploads, and the run up to the end of its `prerun_check`. -/
def startSchedule : List (ℕ × Action) :=
  uploadSchedule ++ (2, .proceed) :: List.replicate 7 (4, .proceed) ++
    List.replicate 5 (5, .proceed)

/-- A comparison fails, and the error callback of the chord records it. -/
theorem notHanging_runAndUploads : ∃ p,
    Pool.Reaches ((service Tasks.defaultSettings).restrict reported) (runAndUploads "p") p ∧
      (∀ t ∈ p.processes, Idle "r" t) ∧
      p.shared.runs.get? "r" = some ⟨"p", .error, 2, .default, false⟩ ∧ NotHanging "r" p := by
  have hrun : ((runAndUploads "p").run ((service Tasks.defaultSettings).restrict reported)
      (startSchedule ++ [(6, .schedule 1), (7, .header 0 .start), (7, .header 0 .fail),
        (7, .header 1 .result), (8, .proceed)])).any fun p => (∀ t ∈ p.processes, Idle "r" t) ∧
          p.shared.runs.get? "r" = some ⟨"p", .error, 2, .default, false⟩ := by
    decide
  obtain ⟨p, hp, hquiet⟩ := (Option.any_eq_true _ _).mp hrun
  obtain ⟨hidle, hrow⟩ := of_decide_eq_true hquiet
  have hreaches := Pool.reaches_of_run hp
  exact ⟨p, hreaches, hidle, hrow, notHanging_of_reported (by decide) rfl rfl hreaches "r"⟩

/-- When `create_comparison_jobs` fails, its error callback does not know the run and fails too. -/
theorem not_notHanging_comparisonJobs : ∃ p,
    Pool.Reaches (service Tasks.defaultSettings) (runAndUploads "p") p ∧ ¬ NotHanging "r" p := by
  have hrun : ((runAndUploads "p").run (service Tasks.defaultSettings)
      (startSchedule ++ [(6, .raise), (7, .raise)])).any fun p =>
        (∀ t ∈ p.processes, Idle "r" t) ∧
          p.shared.runs.get? "r" = some ⟨"p", .running, 2, .default, false⟩ := by
    decide
  obtain ⟨p, hp, hquiet⟩ := (Option.any_eq_true _ _).mp hrun
  obtain ⟨hidle, hrow⟩ := of_decide_eq_true hquiet
  refine ⟨p, Pool.reaches_of_run hp, fun h => ?_⟩
  rcases h hidle _ hrow with h | h | h <;> cases h

/-- Two checks find the run, and the second holds the lock while the first schedules its
`prerun_check`. -/
def twoChecksSchedule : List (ℕ × Action) :=
  ([0, 0] ++ List.replicate 6 1 ++ List.replicate 7 2 ++ [3, 3, 3, 4, 4, 4, 3, 3] ++
    [4, 3, 5, 5, 4, 4, 3]).map fun i => (i, .proceed)

/-- A `prerun_check` that finds the row locked by another check gives up, and no task fails. -/
theorem not_notHanging_lockedRow : ∃ p,
    Pool.Reaches (service Tasks.defaultSettings) (runAndUploads "p") p ∧ ¬ NotHanging "r" p := by
  have hrun : ((runAndUploads "p").run (service Tasks.defaultSettings) twoChecksSchedule).any
      fun p =>
        (∀ t ∈ p.processes, Idle "r" t) ∧
          p.shared.runs.get? "r" = some ⟨"p", .queued, 2, .default, false⟩ := by
    decide
  obtain ⟨p, hp, hquiet⟩ := (Option.any_eq_true _ _).mp hrun
  obtain ⟨hidle, hrow⟩ := of_decide_eq_true hquiet
  refine ⟨p, Pool.reaches_of_run hp, fun h => ?_⟩
  rcases h hidle _ hrow with h | h | h <;> cases h

end EntityService.Service
