import EntityService.Service.RunRows
import EntityService.Service.UploadSlot

/-! A run is started at most once, however often it is checked for and however often its
`prerun_check` is delivered: the row that `prerun_check` has locked is not started, and once the
lock is released it is. -/
namespace EntityService.Service
open Lib Cache

/-- The state from which `prerun_check` does not start a run again. -/
def RunState.Started : RunState → Bool
  | .running | .completed | .error => true
  | _ => false

/-- A request that arrives, or a task that has been delivered and not started. -/
def Process.Delivered : Process → Bool
  | .check c => c.phase = .pending
  | .runTask (.prerunCheck _ _ phase) => phase = .pending
  | t => t.Arriving

/-- The processes that `create_comparison_jobs` has been scheduled as for a run. -/
def comparisonJobs (runId : RunId) : Process → ℕ
  | .runTask (.createComparisonJobs _ r _) => if r = runId then 1 else 0
  | _ => 0

/-- The process has started the run, or is `create_comparison_jobs` itself. -/
def starts (runId : RunId) : Process → ℕ
  | .runTask (.prerunCheck _ r .started) => if r = runId then 1 else 0
  | t => comparisonJobs runId t

/-- The rows that a transaction has found and locked are still as it found them. -/
def Found (s : Server) : Process → Prop
  | .check c => ∀ check todo held updated, c.phase = .updating check todo held updated →
    updated.Sublist held ∧ ∀ r ∈ updated, check.raises = false →
      ∃ row, s.runs.get? r = some row ∧ row.state = .created
  | .runTask (.prerunCheck _ r .locked) =>
    ∃ row, s.runs.get? r = some row ∧ row.state.Started = false
  | .runTask (.prerunCheck _ r .activated) =>
    ∃ row, s.runs.get? r = some row ∧ row.state.Started = false
  | _ => True

theorem comparisonJobs_le_starts (runId : RunId) (t : Process) :
    comparisonJobs runId t ≤ starts runId t := by
  unfold starts
  split
  case h_1 => exact Nat.zero_le _
  case h_2 => exact le_rfl

section Step
variable {settings : Settings} {s s' : Server} {t t' : Process} {a : Action}
  {started : List Process} {runId : RunId}

theorem started_step (hfound : Found s t) (hstep : ServiceStep settings s t a s' t' started)
    {row : RunRow} (hrow : s.runs.get? runId = some row) (hstarted : row.state.Started = true) :
    ∃ row', s'.runs.get? runId = some row' ∧ row'.state.Started = true := by
  have hrows := rowStep_of_step hstep runId
  rw [hrow] at hrows
  generalize s'.runs.get? runId = row' at hrows ⊢
  cases hrows with
  | same | lock | release | progress => exact ⟨_, rfl, hstarted⟩
  | begin | complete | fail => exact ⟨_, rfl, rfl⟩
  | @change c check held updated row ht hphase hheld hupdated =>
    refine ⟨_, rfl, ?_⟩
    subst ht
    unfold Check.change
    split_ifs with hraises
    · rfl
    · obtain ⟨-, hcreated⟩ := hfound _ _ _ _ hphase
      obtain ⟨row', hrow', hstate⟩ := hcreated runId hupdated (by simpa using hraises)
      obtain rfl := Option.some.inj (hrow.symm.trans hrow')
      rw [hstate] at hstarted
      cases hstarted

/-- What another process has found is kept while it holds the lock. -/
theorem found_other {u : Process} (hlocked : ∀ r, 0 < holds r u → s.locked r = true)
    (hfree : ∀ r, 0 < holds r u → holds r t = 0)
    (hstep : ServiceStep settings s t a s' t' started) (hfound : Found s u) : Found s' u := by
  have hkeep : ∀ r row, 0 < holds r u → s.runs.get? r = some row → s'.runs.get? r = some row := by
    intro r row hheld hrow
    have hrows := rowStep_of_step hstep r
    rw [hrow] at hrows
    exact hrows.eq_of_locked (by rw [← locked_of_get? hrow, hlocked r hheld]) (hfree r hheld)
  cases u with
  | check c =>
    intro check todo held updated hphase
    obtain ⟨hsub, hcreated⟩ := hfound check todo held updated hphase
    refine ⟨hsub, fun r hr hraises => ?_⟩
    have hpos : 0 < holds r (.check c) := by
      simpa only [holds, hphase] using List.count_pos_iff.mpr (hsub.subset hr)
    obtain ⟨row, hrow, hstate⟩ := hcreated r hr hraises
    exact ⟨row, hkeep r row hpos hrow, hstate⟩
  | runTask task =>
    cases task with
    | prerunCheck projectId r phase =>
      cases phase with
      | locked | activated =>
        obtain ⟨row, hrow, hstate⟩ := hfound
        exact ⟨row, hkeep r row (by simp [holds]) hrow, hstate⟩
      | _ => trivial
    | _ => trivial
  | _ => trivial

theorem found_self (hfound : Found s t) (hstep : ServiceStep settings s t a s' t' started) :
    Found s' t' := by
  cases hstep with
  | request | uploadTask | post => trivial
  | @check c a s' phase newRun h =>
    intro check todo held updated hphase
    dsimp only at hphase
    cases h with
    | testReady => split_ifs at hphase
    | beginUpdate =>
      cases hphase
      exact ⟨.slnil, nofun⟩
    | skipRun h =>
      cases hphase
      exact hfound _ _ _ _ h
    | @lockRun _ runId _ held' updated' row h hrow hlocked =>
      cases hphase
      have hlockRun : ∀ r row, s.runs.get? r = some row → row.state = .created →
          ∃ row', (s.lockRun runId).runs.get? r = some row' ∧ row'.state = .created := by
        intro r row hrow hstate
        unfold Server.lockRun
        rw [get?_modifyRun, hrow]
        split_ifs
        · exact ⟨_, rfl, hstate⟩
        · exact ⟨_, rfl, hstate⟩
      obtain ⟨hsub, hcreated⟩ := hfound _ _ _ _ h
      have hkeep : ∀ r ∈ updated', check.raises = false →
          ∃ row, (s.lockRun runId).runs.get? r = some row ∧ row.state = .created := by
        intro r hr hraises
        obtain ⟨row, hrow, hstate⟩ := hcreated r hr hraises
        exact hlockRun r row hrow hstate
      split_ifs with hwanted
      · refine ⟨hsub.cons_cons runId, fun r hr hraises => ?_⟩
        rcases List.mem_cons.mp hr with rfl | hr
        · refine hlockRun r row hrow ?_
          simpa [Check.wanted, hraises] using hwanted
        · exact hkeep r hr hraises
      · exact ⟨hsub.cons runId, hkeep⟩
    | _ => cases hphase
  | @runTask t t' a s' started h =>
    cases h with
    | testMissing => split_ifs <;> trivial
    | @lockRun projectId r row hrow hlocked hstate =>
      refine ⟨{ row with locked := true }, ?_, ?_⟩
      · unfold Server.lockRun
        rw [get?_modifyRun, if_pos rfl, hrow]
        rfl
      · cases hs : row.state <;> simp [hs] at hstate <;> rfl
    | activate => exact hfound
    | @fail t =>
      cases t <;> trivial
    | _ => trivial

theorem found_of_scheduled {u : Process} (h : u.Scheduled) : Found s u := by
  cases u with
  | check c =>
    have hphase : c.phase = .pending := by simpa [Process.Scheduled] using h
    intro check todo held updated hupdating
    rw [hphase] at hupdating
    cases hupdating
  | runTask task =>
    cases task with
    | prerunCheck projectId r phase =>
      obtain rfl : phase = .pending := by simpa [Process.Scheduled] using h
      trivial
    | _ => trivial
  | _ => trivial

/-- A step starts a run only by releasing the lock of its row. -/
theorem starts_step (hstep : ServiceStep settings s t a s' t' started) (runId : RunId) :
    starts runId t' + (started.map (starts runId)).sum ≤ starts runId t ∨
      ∃ projectId, t = .runTask (.prerunCheck projectId runId .activated) ∧
        s' = s.release [runId] [runId] markRunning ∧
          starts runId t' + (started.map (starts runId)).sum = 1 := by
  have hschedules : ∀ schedules : List Schedule,
      ((schedules.map Schedule.process).map (starts runId)).sum = 0 := by
    intro schedules
    refine List.sum_eq_zero fun n hn => ?_
    obtain ⟨u, hu, rfl⟩ := List.mem_map.mp hn
    obtain ⟨schedule, -, rfl⟩ := List.mem_map.mp hu
    cases schedule <;> rfl
  cases hstep with
  | request | uploadTask =>
    left
    rw [hschedules]
    exact le_rfl
  | @post p a s' phase checks h =>
    left
    cases checks <;> exact le_rfl
  | @check c a s' phase newRun h =>
    left
    cases newRun <;> exact le_rfl
  | @runTask t t' a s' started h =>
    cases h with
    | @commit projectId r =>
      by_cases hr : r = runId
      · subst hr
        exact .inr ⟨projectId, rfl, rfl, by simp [starts]⟩
      · exact .inl (by simp [starts, hr])
    | testMissing =>
      left
      split_ifs <;> exact le_rfl
    | start => exact .inl (by simp [starts, comparisonJobs])
    | schedule packages =>
      left
      split_ifs <;> simp [starts, comparisonJobs]
    | header =>
      left
      unfold chordSchedules
      split_ifs <;> simp [starts, comparisonJobs]
    | followAggregation | followGroups =>
      left
      split_ifs <;> simp [starts, comparisonJobs]
    | fail =>
      left
      cases t with
      | prerunCheck => simp [starts, comparisonJobs, RunTask.ended, RunTask.errorCallback]
      | _ => exact le_rfl
    | rollback => exact .inl (by simp [starts, comparisonJobs])
    | _ => exact .inl le_rfl

end Step

/-- A run is started at most once, and is in a state that shows it. -/
def StartedOnce (runId : RunId) (p : Pool Server Process) : Prop :=
  p.total (starts runId) ≤ 1 ∧ (0 < p.total (starts runId) →
    ∃ row, p.shared.runs.get? runId = some row ∧ row.state.Started = true)

section Reaches
variable {settings : Settings} {p₀ p : Pool Server Process}

theorem locksHeld_of_delivered (hinit : ∀ t ∈ p₀.processes, t.Delivered) : LocksHeld p₀ := by
  intro runId
  have hzero : p₀.total (holds runId) = 0 := by
    refine Pool.total_eq_zero.mpr fun t ht => ?_
    have hdelivered := hinit t ht
    cases t with
    | check c =>
      have hphase : c.phase = .pending := by simpa [Process.Delivered] using hdelivered
      simp only [holds, hphase]
    | runTask task =>
      cases task with
      | prerunCheck projectId r phase =>
        obtain rfl : phase = .pending := by simpa [Process.Delivered] using hdelivered
        rfl
      | _ => rfl
    | _ => rfl
  rw [hzero]
  exact Nat.zero_le _

theorem found_of_reaches (hinit : ∀ t ∈ p₀.processes, t.Delivered)
    (h : Pool.Reaches (service settings) p₀ p) : ∀ t ∈ p.processes, Found p.shared t := by
  refine h.invariant (I := fun p => ∀ t ∈ p.processes, Found p.shared t) ?_ ?_
  · intro t ht
    have hdelivered := hinit t ht
    cases t with
    | check c =>
      have hphase : c.phase = .pending := by simpa [Process.Delivered] using hdelivered
      intro check todo held updated h
      rw [hphase] at h
      cases h
    | runTask task =>
      cases task with
      | prerunCheck projectId r phase =>
        obtain rfl : phase = .pending := by simpa [Process.Delivered] using hdelivered
        trivial
      | _ => trivial
    | _ => trivial
  · rintro s before t after a s' t' started hreaches hfound hprogram
    have hstep := serviceStep_of_step hprogram
    have hlocks := locksHeld_of_reaches (locksHeld_of_delivered hinit) hreaches
    refine Pool.forall_step hfound (fun u hu hother => ?_) (fun hself => found_self hself hstep) ?_
    · -- both would hold the lock of the same row
      have hadd : ∀ r, holds r t + holds r u ≤ if s.locked r then 1 else 0 := fun r =>
        (Pool.add_le_total (f := holds r) hu).trans (hlocks r)
      refine found_other (fun r hheld => ?_) (fun r hheld => ?_) hstep hother
      · by_contra hlocked
        have hle := hadd r
        rw [if_neg hlocked] at hle
        omega
      · have hle := hadd r
        split_ifs at hle <;> omega
    · exact fun u hu => found_of_scheduled (scheduled_of_step hstep u hu)

theorem startedOnce_of_reaches (hinit : ∀ t ∈ p₀.processes, t.Delivered)
    (h : Pool.Reaches (service settings) p₀ p) (runId : RunId) : StartedOnce runId p := by
  refine h.invariant (I := StartedOnce runId) ?_ ?_
  · have hzero : p₀.total (starts runId) = 0 := by
      refine Pool.total_eq_zero.mpr fun t ht => ?_
      have hdelivered := hinit t ht
      cases t with
      | runTask task =>
        cases task with
        | prerunCheck projectId r phase =>
          obtain rfl : phase = .pending := by simpa [Process.Delivered] using hdelivered
          rfl
        | _ => cases hdelivered
      | _ => rfl
    exact ⟨by omega, by omega⟩
  · rintro s before t after a s' t' started hreaches ⟨honce, hrow⟩ hprogram
    have hstep := serviceStep_of_step hprogram
    have hfound := found_of_reaches hinit hreaches
    have htotal := Pool.total_step (starts runId) s s' before after started t t'
    have hself : starts runId t ≤ Pool.total (starts runId) ⟨s, before ++ t :: after⟩ :=
      Pool.le_total List.mem_append_cons_self
    rcases starts_step hstep runId with hle | ⟨projectId, rfl, rfl, hone⟩
    · refine ⟨by omega, fun hpos => ?_⟩
      obtain ⟨row, hget, hstarted⟩ := hrow (by omega)
      exact started_step (hfound t List.mem_append_cons_self) hstep hget hstarted
    · -- the row was not started while its lock was held
      obtain ⟨row, hget, hnot⟩ := hfound _ List.mem_append_cons_self
      have hnone : ¬ 0 < Pool.total (starts runId)
          ⟨s, before ++ .runTask (.prerunCheck projectId runId .activated) :: after⟩ := by
        intro hpos
        obtain ⟨row', hget', hstarted⟩ := hrow hpos
        obtain rfl := Option.some.inj (hget.symm.trans hget')
        rw [hnot] at hstarted
        cases hstarted
      have hzero : starts runId (.runTask (.prerunCheck projectId runId .activated)) = 0 := rfl
      refine ⟨by omega, fun _ => ⟨{ markRunning row with locked := false }, ?_, rfl⟩⟩
      dsimp only at hget ⊢
      rw [get?_release, if_pos (List.mem_singleton_self _), hget]
      simp

/-- `create_comparison_jobs` is scheduled at most once for a run. -/
theorem comparisonJobs_of_reaches (hinit : ∀ t ∈ p₀.processes, t.Delivered)
    (h : Pool.Reaches (service settings) p₀ p) (runId : RunId) :
    p.total (comparisonJobs runId) ≤ 1 :=
  (Pool.total_mono fun t _ => comparisonJobs_le_starts runId t).trans
    (startedOnce_of_reaches hinit h runId).1

end Reaches
/-- A project whose uploads are ready and a run of it, with two checks and with two deliveries of
`prerun_check` of which there will be a third. -/
def duplicateDeliveries : Pool Server Process where
  shared := { newServer with
    db := { newServer.db with
      dataproviders := newServer.db.dataproviders.map fun d => { d with uploaded := .done }
      uploads := [⟨1, "x", none, .ready, some 8, 2, 1⟩, ⟨2, "y", none, .ready, some 8, 2, 1⟩] }
    runs := Dict.empty.set "r" ⟨"p", .created, 1, .default, false⟩ }
  processes := [.check ⟨"p", .pending⟩, .check ⟨"p", .pending⟩,
    .runTask (.prerunCheck "p" "r" .pending), .runTask (.prerunCheck "p" "r" .pending)]

theorem comparisonJobs_duplicateDeliveries : ∃ p,
    Pool.Reaches (service Tasks.defaultSettings) duplicateDeliveries p ∧
      (∃ t ∈ p.processes, 0 < comparisonJobs "r" t) ∧ p.total (comparisonJobs "r") ≤ 1 := by
  have hrun : (duplicateDeliveries.run (service Tasks.defaultSettings)
      [(0, .proceed), (1, .proceed), (0, .proceed), (1, .proceed), (0, .proceed), (1, .proceed),
        (0, .proceed), (0, .proceed), (0, .proceed), (1, .proceed), (1, .proceed), (2, .proceed),
        (3, .proceed), (4, .proceed), (2, .proceed), (3, .proceed), (2, .proceed), (2, .proceed),
        (4, .proceed), (2, .proceed)]).any
          fun p => ∃ t ∈ p.processes, 0 < comparisonJobs "r" t := by
    decide
  obtain ⟨p, hp, hstarted⟩ := (Option.any_eq_true _ _).mp hrun
  have hreaches := Pool.reaches_of_run hp
  exact ⟨p, hreaches, of_decide_eq_true hstarted,
    comparisonJobs_of_reaches (by decide) hreaches "r"⟩

end EntityService.Service
