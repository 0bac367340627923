import EntityService.Service.Verdicts
import EntityService.Service.WakeUp

/-! The life cycle of a run. A run is led from one stage to the next by one task at a time, and a
check that fails all runs of a project has never let one of them pass. -/
namespace EntityService.Service
open Lib

/-- What the state of a run says about its stage. -/
structure LifeCycle (row : RunRow) : Prop where
  created : row.state = .created → row.stage = 1
  queued : row.state = .queued → row.stage = 2
  running : row.state = .running → row.stage = 2 ∨ row.stage = 3 ∧ row.type = .default
  completed : row.state = .completed → row.stage = row.type.stages

/-- How a run may develop: the stage does not decrease, and two states are final. -/
structure Develops (row row' : RunRow) : Prop where
  stage : row.stage ≤ row'.stage
  final : row.state = .completed ∨ row.state = .error → row'.state = row.state

def runType (project : ProjectRow) : RunType :=
  if project.resultType = .similarityScores then .noMapping else .default

def WellTyped (db : Database) (row : RunRow) : Prop :=
  ∃ project, db.findProject row.project = some project ∧ row.type = runType project

/-- The processes that work on a run agree with its row. -/
structure TracksRun (settings : Settings) (runId : RunId) (p : Pool Server Process)
    (row : RunRow) : Prop where
  one : p.total (leadsTo .queued runId) + p.total (leadsTo .comparing runId) +
    p.total (leadsTo .aggregated runId) + p.total (leadsTo .completed runId) ≤ 1
  reached : ∀ m, 0 < p.total (leadsTo m runId) → m.Reached row
  spoiled : 0 < p.total (spoils runId) → (∀ m, p.total (leadsTo m runId) = 0) ∧
    (row.state = .running ∨ row.state = .error)
  lifeCycle : LifeCycle row
  typed : WellTyped p.shared.db row
  accepted : row.state ≠ .created → row.state ≠ .error →
    Settled row.project p ∧ p.shared.db.SizesAccepted settings row.project

/-- The runs of the project are tracked, and nothing works on a run that is not there. -/
structure TracksRuns (settings : Settings) (projectId : ProjectId) (p : Pool Server Process) :
    Prop where
  none : ∀ runId, p.shared.runs.get? runId = none →
    (∀ m, p.total (leadsTo m runId) = 0) ∧ p.total (spoils runId) = 0
  some : ∀ runId row, p.shared.runs.get? runId = some row → row.project = projectId →
    TracksRun settings runId p row

theorem Milestone.Reached.congr {m : Milestone} {row row' : RunRow}
    (halike : row'.unlocked = row.unlocked) (h : m.Reached row) : m.Reached row' := by
  obtain ⟨-, hstate, hstage, htype⟩ := unlocked_eq halike
  cases m <;> simpa only [Reached, hstate, hstage, htype] using h

theorem LifeCycle.congr {row row' : RunRow} (halike : row'.unlocked = row.unlocked)
    (h : LifeCycle row) : LifeCycle row' := by
  obtain ⟨-, hstate, hstage, htype⟩ := unlocked_eq halike
  obtain ⟨hcreated, hqueued, hrunning, hcompleted⟩ := h
  constructor <;> rw [hstate, hstage] <;> (try rw [htype]) <;> assumption

theorem Develops.of_alike {row row' : RunRow} (halike : row'.unlocked = row.unlocked) :
    Develops row row' := by
  obtain ⟨-, hstate, hstage, -⟩ := unlocked_eq halike
  exact ⟨hstage.ge, fun _ => hstate⟩

theorem Develops.trans {row row' row'' : RunRow} (h : Develops row row')
    (h' : Develops row' row'') : Develops row row'' := by
  refine ⟨h.stage.trans h'.stage, fun hfinal => ?_⟩
  have hstate := h.final hfinal
  exact (h'.final (by rwa [hstate])).trans hstate

section Step
variable {settings : Settings} {s s' : Server} {t t' : Process} {a : Action}
  {before after started : List Process} {runId : RunId} {projectId : ProjectId}

theorem tracksRuns_none (hfound : Found s t) (hstep : ServiceStep settings s t a s' t' started)
    (hnone : s.runs.get? runId = none)
    (h : (∀ m, Pool.total (leadsTo m runId) ⟨s, before ++ t :: after⟩ = 0) ∧
      Pool.total (spoils runId) ⟨s, before ++ t :: after⟩ = 0) :
    (∀ m, Pool.total (leadsTo m runId) ⟨s', before ++ t' :: after ++ started⟩ = 0) ∧
      Pool.total (spoils runId) ⟨s', before ++ t' :: after ++ started⟩ = 0 := by
  obtain ⟨hleads, hspoils⟩ := h
  have hm := fun m => total_stepTotal (leadsTo m runId) s s' before after started t t'
  have hs := total_stepTotal (spoils runId) s s' before after started t t'
  have hlead : ∀ m, leadsTo m runId t = 0 := fun m =>
    Pool.total_eq_zero.mp (hleads m) t List.mem_append_cons_self
  have hspoil : spoils runId t = 0 := Pool.total_eq_zero.mp hspoils t List.mem_append_cons_self
  have hsum : (∀ m, stepTotal (leadsTo m runId) t' started = 0) →
      stepTotal (spoils runId) t' started = 0 →
        (∀ m, Pool.total (leadsTo m runId) ⟨s', before ++ t' :: after ++ started⟩ = 0) ∧
          Pool.total (spoils runId) ⟨s', before ++ t' :: after ++ started⟩ = 0 := by
    intro h1 h2
    refine ⟨fun m => ?_, ?_⟩
    · have h := hm m
      rw [h1 m, hleads m, hlead m] at h
      exact h
    · rw [h2, hspoils, hspoil] at hs
      exact hs
  cases tokenStep_of_step hfound hstep runId with
  | keep _ hleads' hspoils' =>
    exact hsum (fun m => (hleads' m).trans (hlead m)) (hspoils'.trans hspoil)
  | lose _ hleads' hspoils' => exact hsum hleads' (hspoils'.trans hspoil)
  | spoil _ hbefore | fail hbefore => simp [hlead, hspoil] at hbefore
  | post _ _ _ _ _ hleads' hspoils' => exact hsum hleads' hspoils'
  | @change c check held updated ht hphase hheld hupdated hrow hleads' hspoils' =>
    refine hsum (fun m => (hleads' m).trans ?_) hspoils'
    unfold Check.newRuns
    split_ifs with _ hraises
    · rfl
    · subst ht
      obtain ⟨row, hrow, -⟩ := (hfound _ _ _ _ hphase).2 runId hupdated (by simpa using hraises)
      rw [hnone] at hrow
      cases hrow
    · rfl
  | begin hbefore | complete hbefore =>
    rw [hlead] at hbefore
    cases hbefore
  | aggregate ht =>
    have hone := hlead .comparing
    subst ht
    simp [leadsTo, RunTask.milestone] at hone

theorem wellTyped_step (hstep : ServiceStep settings s t a s' t' started) {row row' : RunRow}
    (hproject : row'.project = row.project) (htype : row'.type = row.type)
    (h : WellTyped s.db row) : WellTyped s'.db row' := by
  obtain ⟨project, hrow, hrunType⟩ := h
  have hfixed := (tables_step hstep).1 row.project
  rw [hrow, Option.map_some, Option.map_eq_some_iff] at hfixed
  obtain ⟨project', hrow', hsame⟩ := hfixed
  refine ⟨project', by rw [hproject, hrow'], ?_⟩
  have hresult := congrArg ProjectRow.resultType hsame
  change project'.resultType = project.resultType at hresult
  rw [htype, hrunType, runType, runType, hresult]

/-- What a task that leads a run says about its row. -/
theorem TracksRun.reached_of_pos {row : RunRow}
    (h : TracksRun settings runId ⟨s, before ++ t :: after⟩ row) {m : Milestone}
    (hpos : 0 < leadsTo m runId t) : m.Reached row :=
  h.reached m (hpos.trans_le (Pool.le_total List.mem_append_cons_self))

/-- A run that a task spoils is running, or has failed already. -/
theorem TracksRun.state_of_spoil {row : RunRow}
    (h : TracksRun settings runId ⟨s, before ++ t :: after⟩ row)
    (hpos : 0 < leadsTo .comparing runId t + leadsTo .aggregated runId t + spoils runId t) :
    (row.state = .running ∨ row.state = .error) ∧ ∀ m,
      Pool.total (leadsTo m runId) ⟨s, before ++ t :: after⟩ = leadsTo m runId t := by
  have hle := fun m => Pool.le_total (f := leadsTo m runId) (p := ⟨s, before ++ t :: after⟩)
    List.mem_append_cons_self
  have hone := h.one
  have h1 := hle .queued
  have h2 := hle .comparing
  have h3 := hle .aggregated
  have h4 := hle .completed
  by_cases hspoils : 0 < spoils runId t
  · obtain ⟨hzero, hstate⟩ := h.spoiled
      (hspoils.trans_le (Pool.le_total List.mem_append_cons_self))
    refine ⟨hstate, fun m => ?_⟩
    have hm := hle m
    rw [hzero m] at hm ⊢
    omega
  · refine ⟨.inl ?_, fun m => ?_⟩
    · by_cases hcomparing : 0 < leadsTo .comparing runId t
      · exact (h.reached_of_pos hcomparing).1
      · exact (h.reached_of_pos (m := .aggregated) (by omega)).1
    · cases m <;> omega

/-- No task leads a run in a state without a milestone. -/
theorem TracksRun.leads_eq_zero {p : Pool Server Process} {row : RunRow}
    (h : TracksRun settings runId p row) (hstate : row.state = .created ∨ row.state = .error)
    (m : Milestone) : p.total (leadsTo m runId) = 0 := by
  by_contra hne
  have hreached := h.reached m (Nat.pos_of_ne_zero hne)
  cases m <;> rcases hstate with hstate | hstate <;> simp [Milestone.Reached, hstate] at hreached

/-- The part of `TracksRun` about the tasks that lead the run or spoil it. -/
structure LeadsRun (runId : RunId) (p : Pool Server Process) (row : RunRow) : Prop where
  one : p.total (leadsTo .queued runId) + p.total (leadsTo .comparing runId) +
    p.total (leadsTo .aggregated runId) + p.total (leadsTo .completed runId) ≤ 1
  reached : ∀ m, 0 < p.total (leadsTo m runId) → m.Reached row
  spoiled : 0 < p.total (spoils runId) → (∀ m, p.total (leadsTo m runId) = 0) ∧
    (row.state = .running ∨ row.state = .error)

section Leads
variable {p p' : Pool Server Process} {row row' : RunRow}

theorem LeadsRun.of_zero (hzero : ∀ m, p.total (leadsTo m runId) = 0)
    (hstate : 0 < p.total (spoils runId) → row.state = .running ∨ row.state = .error) :
    LeadsRun runId p row := by
  refine ⟨?_, fun m hpos => ?_, fun hpos => ⟨hzero, hstate hpos⟩⟩
  · simp only [hzero]
    exact Nat.zero_le 1
  · rw [hzero] at hpos
    cases hpos

/-- Tasks may end without an effect on the run. -/
theorem TracksRun.leads_of_le (h : TracksRun settings runId p row)
    (halike : row'.unlocked = row.unlocked)
    (hleads : ∀ m, p'.total (leadsTo m runId) ≤ p.total (leadsTo m runId))
    (hspoils : p'.total (spoils runId) ≤ p.total (spoils runId)) : LeadsRun runId p' row' := by
  obtain ⟨-, hstate', -, -⟩ := unlocked_eq halike
  refine ⟨?_, fun m hpos => ?_, fun hpos => ?_⟩
  · have hone := h.one
    have h1 := hleads .queued
    have h2 := hleads .comparing
    have h3 := hleads .aggregated
    have h4 := hleads .completed
    omega
  · exact (h.reached m (hpos.trans_le (hleads m))).congr halike
  · obtain ⟨hzero, hstate⟩ := h.spoiled (hpos.trans_le hspoils)
    exact ⟨fun m => Nat.eq_zero_of_le_zero (hzero m ▸ hleads m), by rwa [hstate']⟩

end Leads

/-- A task that leads a run to the next milestone is still the only one. -/
theorem TracksRun.move {row : RunRow} (s' : Server) (row' : RunRow)
    (h : TracksRun settings runId ⟨s, before ++ t :: after⟩ row) {m₀ m₁ : Milestone}
    (hbefore : leadsTo m₀ runId t = 1)
    (hleads : ∀ m, stepTotal (leadsTo m runId) t' started = if m = m₁ then 1 else 0)
    (hspoils : stepTotal (spoils runId) t' started = 0) (hreached : m₁.Reached row') :
    LeadsRun runId ⟨s', before ++ t' :: after ++ started⟩ row' := by
  have hm := fun m => total_stepTotal (leadsTo m runId) s s' before after started t t'
  have hs := total_stepTotal (spoils runId) s s' before after started t t'
  have hle : ∀ m, leadsTo m runId t ≤ Pool.total (leadsTo m runId) ⟨s, before ++ t :: after⟩ :=
    fun m => Pool.le_total List.mem_append_cons_self
  have hles : spoils runId t ≤ Pool.total (spoils runId) ⟨s, before ++ t :: after⟩ :=
    Pool.le_total List.mem_append_cons_self
  have hone := h.one
  have h1 := hle .queued
  have h2 := hle .comparing
  have h3 := hle .aggregated
  have h4 := hle .completed
  have hsame : ∀ m, Pool.total (leadsTo m runId) ⟨s, before ++ t :: after⟩ = leadsTo m runId t := by
    intro m
    cases m₀ <;> cases m <;> omega
  have htotals : ∀ m, Pool.total (leadsTo m runId) ⟨s', before ++ t' :: after ++ started⟩ =
      if m = m₁ then 1 else 0 := by
    intro m
    have hmm := hm m
    rw [hleads, hsame] at hmm
    omega
  refine ⟨?_, fun m hpos => ?_, fun hpos => ?_⟩
  · rw [htotals, htotals, htotals, htotals]
    cases m₁ <;> decide
  · rw [htotals] at hpos
    split_ifs at hpos with hm
    · rwa [hm]
    · cases hpos
  · have hzero := (h.spoiled (by omega)).1 m₀
    have hm₀ := hle m₀
    omega

/-- The run has developed in a step, after which the processes agree with its row. -/
def Follows (settings : Settings) (projectId : ProjectId) (runId : RunId) (row : RunRow)
    (p : Pool Server Process) : Prop :=
  ∃ row', p.shared.runs.get? runId = some row' ∧ row'.project = projectId ∧ Develops row row' ∧
    TracksRun settings runId p row'

section Tracked
variable {row row' : RunRow} (honce : uploadsOnce projectId s t a)
  (hverdicts : Verdicts settings projectId ⟨s, before ++ t :: after⟩)
  (hstep : ServiceStep settings s t a s' t' started)
  (hproject : row.project = projectId)
  (h : TracksRun settings runId ⟨s, before ++ t :: after⟩ row)
include honce hverdicts hstep hproject h

/-- An accepted project stays accepted, so the processes agree with the row after the step too. -/
theorem TracksRun.after_step (hproject' : row'.project = row.project)
    (htype' : row'.type = row.type)
    (hleads : LeadsRun runId ⟨s', before ++ t' :: after ++ started⟩ row')
    (hlife : LifeCycle row')
    (haccepted : row'.state ≠ .created → row'.state ≠ .error →
      Settled projectId ⟨s, before ++ t :: after⟩ ∧ s.db.SizesAccepted settings projectId) :
    TracksRun settings runId ⟨s', before ++ t' :: after ++ started⟩ row' := by
  refine ⟨hleads.one, hleads.reached, hleads.spoiled, hlife,
    wellTyped_step hstep hproject' htype' h.typed, fun hcreated herror => ?_⟩
  obtain ⟨hsettled, hsizes⟩ := haccepted hcreated herror
  rw [hproject', hproject]
  refine ⟨(settled_step honce hstep hsettled).1, ?_⟩
  refine (verdict_step honce hstep hsettled fun c check ht => ?_).2.mpr hsizes
  exact hverdicts.agrees c check (ht ▸ List.mem_append_cons_self)

theorem follows_of_alike (hrow' : s'.runs.get? runId = some row')
    (halike : row'.unlocked = row.unlocked)
    (hleads : LeadsRun runId ⟨s', before ++ t' :: after ++ started⟩ row') :
    Follows settings projectId runId row ⟨s', before ++ t' :: after ++ started⟩ := by
  obtain ⟨hproject', hstate', -, htype'⟩ := unlocked_eq halike
  refine ⟨row', hrow', hproject'.trans hproject, .of_alike halike, h.after_step honce hverdicts
    hstep hproject hproject' htype' hleads (h.lifeCycle.congr halike) ?_⟩
  rw [hstate', ← hproject]
  exact h.accepted

/-- A run whose failure has been recorded has nothing that leads it on. -/
theorem follows_of_failed (hrow' : s'.runs.get? runId = some row')
    (hproject' : row'.project = row.project) (herror : row'.state = .error)
    (hstage' : row'.stage = row.stage) (htype' : row'.type = row.type)
    (hstate : row.state ≠ .completed)
    (hzero : ∀ m, Pool.total (leadsTo m runId) ⟨s', before ++ t' :: after ++ started⟩ = 0) :
    Follows settings projectId runId row ⟨s', before ++ t' :: after ++ started⟩ := by
  refine ⟨row', hrow', hproject'.trans hproject, ⟨hstage'.ge, fun hfinal => ?_⟩,
    h.after_step honce hverdicts hstep hproject hproject' htype'
      (.of_zero hzero fun _ => .inr herror) ?_ fun _ hne => absurd herror hne⟩
  · rw [herror, hfinal.resolve_left hstate]
  · constructor <;> simp [herror]

/-- A run that a task works on goes on. -/
theorem follows_of_moved (hrow' : s'.runs.get? runId = some row')
    (hproject' : row'.project = row.project) (htype' : row'.type = row.type)
    (hactive : row.state = .queued ∨ row.state = .running) (hgrows : row.stage ≤ row'.stage)
    (hlife : LifeCycle row')
    (hleads : LeadsRun runId ⟨s', before ++ t' :: after ++ started⟩ row') :
    Follows settings projectId runId row ⟨s', before ++ t' :: after ++ started⟩ := by
  refine ⟨row', hrow', hproject'.trans hproject, ⟨hgrows, fun hfinal => ?_⟩,
    h.after_step honce hverdicts hstep hproject hproject' htype' hleads hlife fun _ _ => ?_⟩
  · rcases hactive with hactive | hactive <;> rw [hactive] at hfinal <;> simp at hfinal
  · rw [← hproject]
    refine h.accepted ?_ ?_ <;> rcases hactive with hactive | hactive <;> simp [hactive]

/-- The runs of an accepted project are not failed by a check, so the run was not in use. -/
theorem follows_change_invalid {c : Check} {check : SizeCheck} {held updated : List RunId}
    (ht : t = .check c) (hphase : c.phase = .updating check [] held updated)
    (hc : c.projectId = projectId) (hraises : check.raises = true)
    (hchange : ChangesRun runId s s' (Check.change check)) (hrow : s.runs.get? runId = some row)
    (hleads : ∀ m, stepTotal (leadsTo m runId) t' started =
      if m = .queued then (Check.newRuns check updated).count runId else 0) :
    Follows settings projectId runId row ⟨s', before ++ t' :: after ++ started⟩ := by
  obtain ⟨row', hrow', halike⟩ := hchange.exists hrow
  unfold Check.change at halike
  rw [if_pos hraises] at halike
  obtain ⟨hproject', hstate', hstage', htype'⟩ := unlocked_eq halike
  have hagrees := hverdicts.agrees c check (ht ▸ List.mem_append_cons_self) hc
    (by rw [hphase]; rfl)
  have hstate : row.state = .created ∨ row.state = .error := by
    by_contra hne
    rw [not_or] at hne
    obtain ⟨-, hsizes⟩ := h.accepted hne.1 hne.2
    have hnot := hagrees.1.mpr (hproject ▸ hsizes)
    rw [hraises] at hnot
    cases hnot
  refine follows_of_failed honce hverdicts hstep hproject h hrow' hproject' hstate' hstage' htype'
    ?_ fun m => ?_
  · rcases hstate with hstate | hstate <;> rw [hstate] <;> simp
  · have hm := total_stepTotal (leadsTo m runId) s s' before after started t t'
    have hnone : (Check.newRuns check updated).count runId = 0 := by
      rw [Check.newRuns, if_pos hraises]
      rfl
    have hlead : leadsTo m runId t = 0 := by
      rw [ht]
      simp only [leadsTo, hphase]
    rw [hleads, hnone, hlead, h.leads_eq_zero hstate m] at hm
    simpa using hm

/-- A run that the check puts in the queue was created before, and is put there once. -/
theorem follows_change_queued {c : Check} {check : SizeCheck} {held updated : List RunId}
    (hfound : Found s t) (hholds : ∀ r, holds r t ≤ 1) (ht : t = .check c)
    (hphase : c.phase = .updating check [] held updated) (hupdated : runId ∈ updated)
    (hc : c.projectId = projectId) (hpasses : check.raises = false)
    (hchange : ChangesRun runId s s' (Check.change check)) (hrow : s.runs.get? runId = some row)
    (hleads : ∀ m, stepTotal (leadsTo m runId) t' started =
      if m = .queued then (Check.newRuns check updated).count runId else 0)
    (hspoils : stepTotal (spoils runId) t' started = 0) :
    Follows settings projectId runId row ⟨s', before ++ t' :: after ++ started⟩ := by
  subst ht
  obtain ⟨row', hrow', halike⟩ := hchange.exists hrow
  have hraises : ¬ check.raises = true := by simp [hpasses]
  unfold Check.change at halike
  rw [if_neg hraises] at halike
  obtain ⟨hproject', hstate', hstage', htype'⟩ := unlocked_eq halike
  have hagrees := hverdicts.agrees c check List.mem_append_cons_self hc (by rw [hphase]; rfl)
  have hcreated : row.state = .created := by
    obtain ⟨row'', hrow'', hstate⟩ := (hfound _ _ _ _ hphase).2 runId hupdated hpasses
    obtain rfl := Option.some.inj (hrow.symm.trans hrow'')
    exact hstate
  have hcount : updated.count runId ≤ 1 := by
    refine ((hfound _ _ _ _ hphase).1.count_le runId).trans ?_
    simpa only [holds, hphase] using hholds runId
  have hm := fun m => total_stepTotal (leadsTo m runId) s s' before after started (.check c) t'
  have hs := total_stepTotal (spoils runId) s s' before after started (.check c) t'
  have hlead : ∀ m, leadsTo m runId (.check c) = 0 := fun m => by simp only [leadsTo, hphase]
  have hzero : ∀ m, m ≠ .queued →
      Pool.total (leadsTo m runId) ⟨s', before ++ t' :: after ++ started⟩ = 0 := by
    intro m hne
    have hmm := hm m
    rw [hleads, if_neg hne, hlead, h.leads_eq_zero (.inl hcreated) m] at hmm
    exact hmm
  have hqueued : Pool.total (leadsTo .queued runId) ⟨s', before ++ t' :: after ++ started⟩ ≤
      1 := by
    have hmm := hm .queued
    rw [hleads, if_pos rfl, hlead, h.leads_eq_zero (.inl hcreated) .queued, Check.newRuns,
      if_neg hraises] at hmm
    omega
  have hstate : row'.state = .queued := hstate'
  have hstage : row'.stage = 2 := by
    rw [hstage']
    change row.stage + 1 = 2
    rw [h.lifeCycle.created hcreated]
  refine ⟨row', hrow', hproject'.trans hproject, ⟨?_, fun hfinal => ?_⟩,
    h.after_step honce hverdicts hstep hproject hproject' htype'
      ⟨?_, fun m hpos => ?_, fun hpos => ?_⟩ ?_ fun _ _ => ?_⟩
  · rw [hstage, h.lifeCycle.created hcreated]
    exact Nat.le_succ 1
  · rcases hfinal with hfinal | hfinal <;> rw [hcreated] at hfinal <;> cases hfinal
  · rw [hzero .comparing (by simp), hzero .aggregated (by simp), hzero .completed (by simp)]
    exact hqueued
  · by_cases hne : m = .queued
    · subst hne
      exact ⟨hstate, hstage⟩
    · rw [hzero m hne] at hpos
      cases hpos
  · have hles : spoils runId (.check c) ≤
        Pool.total (spoils runId) ⟨s, before ++ .check c :: after⟩ :=
      Pool.le_total List.mem_append_cons_self
    rcases (h.spoiled (by omega)).2 with hne | hne <;> rw [hcreated] at hne <;> cases hne
  · constructor <;> rw [hstate]
    · simp
    · exact fun _ => hstage
    · simp
    · simp
  · exact ⟨hverdicts.settled c List.mem_append_cons_self hc (by rw [hphase]; rfl),
      hc ▸ hagrees.1.mp hpasses⟩

/-- The aggregation reads the project of the run, which has fixed the type of the run. -/
theorem follows_aggregate {q : ProjectId} {project : ProjectRow} (hown : OwnRuns s t)
    (ht : t = .runTask (.aggregateComparisons q runId true .pending))
    (hquery : s.db.findProject q = some project)
    (hchange : ChangesRun runId s s'
      (if project.resultType = .similarityScores then id else progressStage))
    (hrow : s.runs.get? runId = some row)
    (hleads : ∀ m, stepTotal (leadsTo m runId) t' started = if m = .aggregated then 1 else 0)
    (hspoils : stepTotal (spoils runId) t' started = 0) :
    Follows settings projectId runId row ⟨s', before ++ t' :: after ++ started⟩ := by
  subst ht
  obtain ⟨row', hrow', halike⟩ := hchange.exists hrow
  have hbefore : leadsTo .comparing runId
      (.runTask (.aggregateComparisons q runId true .pending)) = 1 := by
    simp [leadsTo, RunTask.milestone]
  obtain ⟨hrunning, hstage⟩ := h.reached_of_pos (m := .comparing) (by omega)
  have htyped : row.type = runType project := by
    obtain ⟨row'', hrow'', hq⟩ := hown q runId rfl
    obtain rfl := Option.some.inj (hrow.symm.trans hrow'')
    obtain ⟨project', hquery', htype⟩ := h.typed
    rw [hq, hquery] at hquery'
    rw [htype, Option.some.inj hquery']
  have hsame : row'.project = row.project ∧ row'.state = row.state ∧ row'.type = row.type ∧
      row'.stage = row.type.stages ∧ row.stage ≤ row'.stage := by
    by_cases hscores : project.resultType = .similarityScores
    · rw [if_pos hscores] at halike
      obtain ⟨hproject', hstate', hstage', htype'⟩ := unlocked_eq halike
      refine ⟨hproject', hstate', htype', ?_, hstage'.ge⟩
      rw [htyped, runType, if_pos hscores]
      exact hstage'.trans hstage
    · rw [if_neg hscores] at halike
      obtain ⟨hproject', hstate', hstage', htype'⟩ := unlocked_eq halike
      refine ⟨hproject', hstate', htype', ?_, hstage' ▸ Nat.le_succ _⟩
      rw [htyped, runType, if_neg hscores, hstage']
      exact congrArg Nat.succ hstage
  obtain ⟨hproject', hstate', htype', hstages, hgrows⟩ := hsame
  have hstate : row'.state = .running := hstate'.trans hrunning
  refine follows_of_moved honce hverdicts hstep hproject h hrow' hproject' htype' (.inr hrunning)
    hgrows ?_ (h.move s' row' hbefore hleads hspoils ⟨hstate, by rw [hstages, htype']⟩)
  constructor <;> rw [hstate]
  · simp
  · simp
  · intro _
    rw [hstages, htype']
    cases row.type with
    | default => exact .inr ⟨rfl, rfl⟩
    | noMapping => exact .inl rfl
  · simp

theorem tracksRun_step (hfound : Found s t) (hholds : ∀ r, holds r t ≤ 1) (hown : OwnRuns s t)
    (hrow : s.runs.get? runId = some row) :
    Follows settings projectId runId row ⟨s', before ++ t' :: after ++ started⟩ := by
  have hm := fun m => total_stepTotal (leadsTo m runId) s s' before after started t t'
  have hs := total_stepTotal (spoils runId) s s' before after started t t'
  have halike : ∀ {row'}, s'.runs.get? runId = some row' → row'.unlocked = row.unlocked →
      LeadsRun runId ⟨s', before ++ t' :: after ++ started⟩ row' →
      Follows settings projectId runId row ⟨s', before ++ t' :: after ++ started⟩ :=
    follows_of_alike honce hverdicts hstep hproject h
  cases tokenStep_of_step hfound hstep runId with
  | keep hchange hleads hspoils =>
    obtain ⟨row', hrow', hsame⟩ := hchange.exists hrow
    refine halike hrow' hsame (h.leads_of_le hsame (fun m => ?_) (by omega))
    have hmm := hm m
    rw [hleads] at hmm
    omega
  | lose hchange hleads hspoils =>
    obtain ⟨row', hrow', hsame⟩ := hchange.exists hrow
    refine halike hrow' hsame (h.leads_of_le hsame (fun m => ?_) (by omega))
    have hmm := hm m
    rw [hleads] at hmm
    omega
  | spoil hchange hbefore hleads =>
    obtain ⟨row', hrow', hsame⟩ := hchange.exists hrow
    obtain ⟨-, hstate', -, -⟩ := unlocked_eq hsame
    obtain ⟨hstate, hall⟩ := h.state_of_spoil hbefore
    refine halike hrow' hsame (.of_zero (fun m => ?_) fun _ => by rwa [hstate'])
    have hmm := hm m
    rw [hleads, hall] at hmm
    omega
  | post _ _ _ hnone =>
    rw [hrow] at hnone
    cases hnone
  | @change c check held updated ht hphase hheld hupdated hchange hleads hspoils =>
    have hc : c.projectId = projectId := by
      subst ht
      obtain ⟨row', hrow', hown⟩ := hown runId (by rw [hphase]; exact hheld)
      obtain rfl := Option.some.inj (hrow.symm.trans hrow')
      exact hown.symm.trans hproject
    cases hraises : check.raises with
    | true =>
      exact follows_change_invalid honce hverdicts hstep hproject h ht hphase hc hraises hchange
        hrow hleads
    | false =>
      exact follows_change_queued honce hverdicts hstep hproject h hfound hholds ht hphase hupdated
        hc hraises hchange hrow hleads hspoils
  | begin hbefore hchange hleads hspoils =>
    obtain ⟨row', hrow', hsame⟩ := hchange.exists hrow
    obtain ⟨hproject', hstate', hstage', htype'⟩ := unlocked_eq hsame
    obtain ⟨hqueued, hstage⟩ := h.reached_of_pos (m := .queued) (by omega)
    have hstate : row'.state = .running := hstate'
    have hstage : row'.stage = 2 := hstage'.trans hstage
    refine follows_of_moved honce hverdicts hstep hproject h hrow' hproject' htype' (.inl hqueued)
      hstage'.ge ?_ (h.move s' row' hbefore hleads hspoils ⟨hstate, hstage⟩)
    constructor <;> rw [hstate]
    · simp
    · simp
    · exact fun _ => .inl hstage
    · simp
  | @aggregate q project ht hquery hchange hleads hspoils =>
    exact follows_aggregate honce hverdicts hstep hproject h hown ht hquery hchange hrow hleads
      hspoils
  | complete hbefore hchange hleads hspoils =>
    obtain ⟨row', hrow', hsame⟩ := hchange.exists hrow
    obtain ⟨hproject', hstate', hstage', htype'⟩ := unlocked_eq hsame
    obtain ⟨hrunning, hstage⟩ := h.reached_of_pos (m := .aggregated) (by omega)
    have hstate : row'.state = .completed := hstate'
    have hstages : row'.stage = row'.type.stages := by
      rw [htype']
      exact hstage'.trans hstage
    refine follows_of_moved honce hverdicts hstep hproject h hrow' hproject' htype' (.inr hrunning)
      hstage'.ge ?_ (h.move s' row' hbefore hleads hspoils ⟨hstate, hstages⟩)
    constructor <;> rw [hstate]
    · simp
    · simp
    · simp
    · exact fun _ => hstages
  | fail hbefore hchange hleads =>
    obtain ⟨row', hrow', hsame⟩ := hchange.exists hrow
    obtain ⟨hproject', hstate', hstage', htype'⟩ := unlocked_eq hsame
    obtain ⟨hstate, hall⟩ := h.state_of_spoil hbefore
    refine follows_of_failed honce hverdicts hstep hproject h hrow' hproject' hstate' hstage' htype'
      ?_ fun m => ?_
    · rcases hstate with hstate | hstate <;> rw [hstate] <;> simp
    · have hmm := hm m
      rw [hleads, hall] at hmm
      omega

end Tracked

theorem tracksRuns_step (honce : uploadsOnce projectId s t a) (hfound : Found s t)
    (hholds : ∀ r, holds r t ≤ 1) (hown : OwnRuns s t)
    (hverdicts : Verdicts settings projectId ⟨s, before ++ t :: after⟩)
    (hstep : ServiceStep settings s t a s' t' started)
    (h : TracksRuns settings projectId ⟨s, before ++ t :: after⟩) :
    TracksRuns settings projectId ⟨s', before ++ t' :: after ++ started⟩ := by
  constructor
  · intro runId hnone'
    have hnone : s.runs.get? runId = none := by
      cases hrow : s.runs.get? runId with
      | none => rfl
      | some row =>
        obtain ⟨row', hrow', -⟩ := hasRun_step hstep ⟨row, hrow, rfl⟩
        rw [show s'.runs.get? runId = none from hnone'] at hrow'
        cases hrow'
    exact tracksRuns_none hfound hstep hnone (h.none runId hnone)
  · intro runId row' hrow' hproject'
    cases hrow : s.runs.get? runId with
    | some row =>
      have hproject : row.project = projectId := by
        obtain ⟨row'', hrow'', hsame⟩ := hasRun_step hstep ⟨row, hrow, rfl⟩
        obtain rfl := Option.some.inj (hrow'.symm.trans hrow'')
        exact hsame.symm.trans hproject'
      obtain ⟨row'', hrow'', -, -, htracks⟩ := tracksRun_step honce hverdicts hstep hproject
        (h.some runId row hrow hproject) hfound hholds hown hrow
      obtain rfl := Option.some.inj (hrow'.symm.trans hrow'')
      exact htracks
    | none =>
      obtain ⟨hleads, hspoils⟩ := tracksRuns_none hfound hstep hrow (h.none runId hrow)
      have habsurd : ∀ {f}, ChangesRun runId s s' f → TracksRun settings runId
          ⟨s', before ++ t' :: after ++ started⟩ row' := by
        intro f hchange
        obtain ⟨row, hrow'', -⟩ := hchange.exists_before hrow'
        rw [hrow] at hrow''
        cases hrow''
      cases tokenStep_of_step hfound hstep runId with
      | @post p project ht hid hquery hnone hnew =>
        obtain rfl := Option.some.inj (hnew.symm.trans hrow')
        refine ⟨by simp only [hleads, Nat.add_zero]; exact Nat.zero_le 1, fun m hpos => ?_,
          fun hpos => ?_, ?_, wellTyped_step hstep rfl rfl ⟨project, hquery, rfl⟩,
          fun hne => absurd rfl hne⟩
        · rw [hleads] at hpos
          cases hpos
        · rw [hspoils] at hpos
          cases hpos
        · constructor
          · exact fun _ => rfl
          · simp
          · simp
          · simp
      | keep hchange | lose hchange | spoil hchange | change _ _ _ _ hchange | begin _ hchange
      | aggregate _ _ hchange | complete _ hchange | fail _ hchange => exact habsurd hchange

end Step

section Reaches
variable {settings : Settings} {p₀ p : Pool Server Process} {projectId : ProjectId}

theorem holds_le_one (hinit : ∀ t ∈ p₀.processes, t.Arriving)
    (h : Pool.Reaches (service settings) p₀ p) {t : Process} (ht : t ∈ p.processes)
    (runId : RunId) : holds runId t ≤ 1 := by
  have hlocks := locksHeld_of_reaches
    (locksHeld_of_delivered fun t ht => delivered_of_arriving (hinit t ht)) h runId
  have hle := Pool.le_total (f := holds runId) ht
  split_ifs at hlocks <;> omega

theorem tracksRuns_of_reaches (hinit : ∀ t ∈ p₀.processes, t.Arriving)
    (hruns : p₀.shared.runs.entries = []) (hsingle : p₀.shared.db.SingleUploadsOf projectId)
    (hcomplete : p₀.shared.db.Complete projectId)
    (h : Pool.Reaches ((service settings).restrict (uploadsOnce projectId)) p₀ p) :
    TracksRuns settings projectId p := by
  refine h.invariant (I := TracksRuns settings projectId) ?_ ?_
  · constructor
    · exact fun runId _ => ⟨fun m => total_eq_zero_of_arriving hinit (fun _ _ => rfl) fun _ => rfl,
        total_eq_zero_of_arriving hinit (fun _ _ => rfl) fun _ => rfl⟩
    · intro runId row hrow
      rw [Dict.get?_eq_some, hruns] at hrow
      cases hrow
  · rintro s before t after a s' t' started hreaches htracks hprogram
    obtain ⟨honce, hprogram⟩ := Program.restrict_eq_some.mp hprogram
    have hfound := found_of_reaches (fun t ht => delivered_of_arriving (hinit t ht))
      hreaches.of_restrict t List.mem_append_cons_self
    exact tracksRuns_step honce hfound
      (fun r => holds_le_one hinit hreaches.of_restrict List.mem_append_cons_self r)
      (ownRuns_of_reaches hinit hreaches.of_restrict t List.mem_append_cons_self)
      (verdicts_of_reaches hinit hsingle hcomplete hreaches) (serviceStep_of_step hprogram) htracks

/-- Each run of a project whose data providers upload at most once is in a state that fits its
stage, and develops as it may. -/
theorem lifeCycle_of_reaches (hinit : ∀ t ∈ p₀.processes, t.Arriving)
    (hruns : p₀.shared.runs.entries = []) (hsingle : p₀.shared.db.SingleUploadsOf projectId)
    (hcomplete : p₀.shared.db.Complete projectId)
    (h : Pool.Reaches ((service settings).restrict (uploadsOnce projectId)) p₀ p) {runId : RunId}
    {row : RunRow} (hrow : p.shared.runs.get? runId = some row)
    (hproject : row.project = projectId) :
    LifeCycle row ∧ ∀ p', Pool.Reaches ((service settings).restrict (uploadsOnce projectId)) p p' →
      ∃ row', p'.shared.runs.get? runId = some row' ∧ Develops row row' := by
  refine ⟨((tracksRuns_of_reaches hinit hruns hsingle hcomplete h).some runId row hrow
    hproject).lifeCycle, fun p' hp' => ?_⟩
  have hdevelops : ∃ row', p'.shared.runs.get? runId = some row' ∧ row'.project = projectId ∧
      Develops row row' := by
    refine hp'.invariant (I := fun p' => ∃ row', p'.shared.runs.get? runId = some row' ∧
      row'.project = projectId ∧ Develops row row') ⟨row, hrow, hproject, .of_alike rfl⟩ ?_
    rintro s before t after a s' t' started hreaches ⟨row', hrow', hproject', hdevelops⟩ hprogram
    obtain ⟨honce, hprogram⟩ := Program.restrict_eq_some.mp hprogram
    have hreaches := h.trans hreaches
    have hfound := found_of_reaches (fun t ht => delivered_of_arriving (hinit t ht))
      hreaches.of_restrict t List.mem_append_cons_self
    have htracks := (tracksRuns_of_reaches hinit hruns hsingle hcomplete hreaches).some runId row'
      hrow' hproject'
    obtain ⟨row'', hrow'', hproject'', hstep, -⟩ := tracksRun_step honce
      (verdicts_of_reaches hinit hsingle hcomplete hreaches) (serviceStep_of_step hprogram)
      hproject' htracks hfound
      (fun r => holds_le_one hinit hreaches.of_restrict List.mem_append_cons_self r)
      (ownRuns_of_reaches hinit hreaches.of_restrict t List.mem_append_cons_self) hrow'
    exact ⟨row'', hrow'', hproject'', hdevelops.trans hstep⟩
  obtain ⟨row', hrow', -, hdevelops⟩ := hdevelops
  exact ⟨row', hrow', hdevelops⟩

end Reaches

theorem lifeCycle_runAndUploads : ∃ p row,
    Pool.Reaches ((service Tasks.defaultSettings).restrict (uploadsOnce "p"))
      (runAndUploads "p") p ∧
      p.shared.runs.get? "r" = some row ∧ row.state = .completed ∧ LifeCycle row := by
  have hrun : ((runAndUploads "p").run ((service Tasks.defaultSettings).restrict (uploadsOnce "p"))
      (uploadSchedule ++ runSchedule)).any fun p =>
        p.shared.runs.get? "r" = some ⟨"p", .completed, 3, .default, false⟩ := by
    decide
  obtain ⟨p, hp, hcompleted⟩ := (Option.any_eq_true _ _).mp hrun
  have hrow := of_decide_eq_true hcompleted
  have hreaches := Pool.reaches_of_run hp
  exact ⟨p, _, hreaches, hrow, rfl, (lifeCycle_of_reaches (by decide) rfl
    (singleUploads_newServer.of_project "p") complete_newServer hreaches hrow rfl).1⟩

end EntityService.Service
