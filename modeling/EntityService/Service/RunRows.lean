import EntityService.Service.RunSteps

/-! What a step of the service does to the row of one run. A locked row is changed by the process
that holds the lock, and by no other. -/
namespace EntityService.Service
open Lib

/-- How often a process holds the lock of a run. -/
def holds (runId : RunId) : Process → ℕ
  | .check c =>
    match c.phase with
    | .updating _ _ held _ => held.count runId
    | _ => 0
  | .runTask (.prerunCheck _ r .locked) => if r = runId then 1 else 0
  | .runTask (.prerunCheck _ r .activated) => if r = runId then 1 else 0
  | _ => 0

inductive MarksFailure (runId : RunId) : Process → Action → Prop
  | overLimit {projectId : ProjectId} :
      MarksFailure runId (.runTask (.solverTask projectId runId .pending)) .overLimit
  | handler : MarksFailure runId (.runTask (.runFailedHandler (some runId) .pending)) .proceed
  | header {projectId : ProjectId} {headers : List HeaderPhase} {i : ℕ} {action : HeaderAction}
      (h : headers[i]? = some .overLimit) :
      MarksFailure runId (.runTask (.chord projectId runId headers)) (.header i action)

inductive RowStep (runId : RunId) (s : Server) (t : Process) (a : Action) (t' : Process) :
    Option RunRow → Option RunRow → Prop
  | same {row : Option RunRow} (hholds : holds runId t' = holds runId t) :
      RowStep runId s t a t' row row
  | missing (hholds : holds runId t' ≤ holds runId t) : RowStep runId s t a t' none none
  | post {p : Post} {project : ProjectRow} (ht : t = .post p)
      (ht' : t' = .post { p with phase := .committed () }) (hid : p.runId = runId)
      (hproject : s.db.findProject p.projectId = some project) :
      RowStep runId s t a t' none (some ⟨p.projectId, .created, 1,
        if project.resultType = .similarityScores then .noMapping else .default, false⟩)
  | lock {row : RunRow} (hlocked : row.locked = false)
      (hholds : holds runId t' = holds runId t + 1) :
      RowStep runId s t a t' (some row) (some { row with locked := true })
  | release {row : RunRow} (hheld : 0 < holds runId t) (hholds : holds runId t' = 0) :
      RowStep runId s t a t' (some row) (some { row with locked := false })
  | change {c : Check} {check : SizeCheck} {held updated : List RunId} {row : RunRow}
      (ht : t = .check c) (hphase : c.phase = .updating check [] held updated)
      (hheld : runId ∈ held) (hupdated : runId ∈ updated) (hholds : holds runId t' = 0) :
      RowStep runId s t a t' (some row) (some { Check.change check row with locked := false })
  | begin {projectId : ProjectId} {row : RunRow}
      (ht : t = .runTask (.prerunCheck projectId runId .activated)) (hholds : holds runId t' = 0) :
      RowStep runId s t a t' (some row) (some { markRunning row with locked := false })
  | progress {projectId : ProjectId} {project : ProjectRow} {row : RunRow}
      (ht : t = .runTask (.aggregateComparisons projectId runId true .pending))
      (hproject : s.db.findProject projectId = some project)
      (htype : project.resultType ≠ .similarityScores) (hlocked : row.locked = false)
      (hholds : holds runId t' = 0) :
      RowStep runId s t a t' (some row) (some (progressStage row))
  | complete {row : RunRow} (ht : t = .runTask (.markRunComplete runId .pending))
      (hlocked : row.locked = false) (hholds : holds runId t' = 0) :
      RowStep runId s t a t' (some row) (some (markComplete row))
  | fail {row : RunRow} (ht : MarksFailure runId t a) (hlocked : row.locked = false)
      (hholds : holds runId t' = 0) : RowStep runId s t a t' (some row) (some (markFailure row))

theorem locked_of_get? {s : Server} {runId : RunId} {row : RunRow}
    (h : s.runs.get? runId = some row) : s.locked runId = row.locked := by
  simp [Server.locked, h]

section Step
variable {settings : Settings} {s s' : Server} {t t' : Process} {a : Action}
  {started : List Process} {runId : RunId}

theorem RowStep.of_eq (h : s'.runs = s.runs) (hholds : holds runId t' = holds runId t) :
    RowStep runId s t a t' (s.runs.get? runId) (s'.runs.get? runId) := by
  rw [h]
  exact .same hholds

/-- A statement that changes one row, if that row is not locked. -/
theorem RowStep.of_modifyRun {r : RunId} {f : RunRow → RunRow}
    (hs' : s'.runs = (s.modifyRun r f).runs)
    (hother : r ≠ runId → holds runId t' = holds runId t)
    (hself : r = runId → ∀ row, s.runs.get? runId = some row →
      RowStep runId s t a t' (some row) (some (f row)))
    (hnone : r = runId → s.runs.get? runId = none → holds runId t' ≤ holds runId t) :
    RowStep runId s t a t' (s.runs.get? runId) (s'.runs.get? runId) := by
  rw [hs', get?_modifyRun]
  by_cases hr : runId = r
  · rw [if_pos hr]
    cases hrow : s.runs.get? runId with
    | none => exact .missing (hnone hr.symm hrow)
    | some row => exact hself hr.symm row hrow
  · rw [if_neg hr]
    exact .same (hother fun h => hr h.symm)

/-- The end of a transaction that holds locks. -/
theorem RowStep.of_release {held updated : List RunId} {f : RunRow → RunRow}
    (hs' : s'.runs = (s.release held updated f).runs) (hheld : runId ∈ held → 0 < holds runId t)
    (hholds : holds runId t' = 0) (hother : runId ∉ held → holds runId t = 0)
    (hupdated : runId ∈ held → runId ∈ updated → ∀ row,
      RowStep runId s t a t' (some row) (some { f row with locked := false })) :
    RowStep runId s t a t' (s.runs.get? runId) (s'.runs.get? runId) := by
  rw [hs', get?_release]
  by_cases hmem : runId ∈ held
  · rw [if_pos hmem]
    cases hget : s.runs.get? runId with
    | none => exact .missing (by rw [hholds]; exact Nat.zero_le _)
    | some row =>
      rw [Option.map_some]
      by_cases hmem' : runId ∈ updated
      · simp only [if_pos hmem']
        exact hupdated hmem hmem' row
      · simp only [if_neg hmem']
        exact .release (hheld hmem) hholds
  · rw [if_neg hmem]
    exact .same (by rw [hholds, hother hmem])

theorem rowStep_post {p : Post} {phase : TaskPhase Unit} {checks : Bool}
    (h : PostStep p s a s' phase checks) (runId : RunId) :
    RowStep runId s (.post p) a (.post { p with phase := phase }) (s.runs.get? runId)
      (s'.runs.get? runId) := by
  cases h with
  | insert h hproject hnew =>
    by_cases hid : runId = p.runId
    · subst hid
      rw [hnew, Dict.get?_set_self]
      exact .post rfl rfl rfl hproject
    · rw [Dict.get?_set_of_ne _ _ hid]
      exact .same rfl
  | _ => exact .of_eq rfl rfl

theorem rowStep_check {c : Check} {phase : CheckPhase} {newRun : Option RunId}
    (h : CheckStep settings c s a s' phase newRun) (runId : RunId) :
    RowStep runId s (.check c) a (.check { c with phase := phase }) (s.runs.get? runId)
      (s'.runs.get? runId) := by
  cases h with
  | testReady h =>
    refine .of_eq rfl ?_
    simp only [holds, h]
    split_ifs <;> rfl
  | skipRun h => exact .of_eq rfl (by simp only [holds, h])
  | @lockRun check r todo held updated row h hrow hlocked =>
    refine .of_modifyRun rfl (fun hr => ?_) (fun hr row' hrow' => ?_) (fun hr hnone => ?_)
    · simp only [holds, h, List.count_cons_of_ne hr]
    · subst hr
      obtain rfl := Option.some.inj (hrow.symm.trans hrow')
      exact .lock hlocked (by simp only [holds, h, List.count_cons_self])
    · rw [← hr, hrow] at hnone
      cases hnone
  | @commit check held updated h =>
    have hruns : (c.commit s check held updated).runs =
        (s.release held updated (Check.change check)).runs := runs_commit c s check held updated
    refine .of_release hruns (fun hmem => ?_) rfl (fun hmem => ?_) fun hmem hupdated row => ?_
    · simpa only [holds, h] using List.count_pos_iff.mpr hmem
    · simpa only [holds, h] using List.count_eq_zero.mpr hmem
    · exact .change rfl h hmem hupdated rfl
  | @rollback check todo held updated h =>
    refine .of_release rfl (fun hmem => ?_) rfl (fun hmem => ?_) fun _ hupdated => ?_
    · simpa only [holds, h] using List.count_pos_iff.mpr hmem
    · simpa only [holds, h] using List.count_eq_zero.mpr hmem
    · cases hupdated
  | fail h hupdating =>
    refine .of_eq rfl ?_
    cases hphase : c.phase with
    | updating check todo held updated => exact absurd hphase (hupdating check todo held updated)
    | _ => simp only [holds, hphase]
  | _ h => exact .of_eq rfl (by simp only [holds, h, List.count_nil])

theorem rowStep_runTask {t t' : RunTask} {started : List RunTask}
    (h : RunTaskStep s t a s' t' started) (runId : RunId) :
    RowStep runId s (.runTask t) a (.runTask t') (s.runs.get? runId) (s'.runs.get? runId) := by
  cases h with
  | testMissing =>
    refine .of_eq rfl ?_
    split_ifs <;> rfl
  | @lockRun projectId r row hrow hlocked hstate =>
    refine .of_modifyRun rfl (fun hr => ?_) (fun hr row' hrow' => ?_) (fun hr hnone => ?_)
    · simp only [holds, if_neg hr]
    · subst hr
      obtain rfl := Option.some.inj (hrow.symm.trans hrow')
      exact .lock hlocked (by simp only [holds, if_true])
    · rw [← hr, hrow] at hnone
      cases hnone
  | @commit projectId r =>
    refine .of_release rfl (fun hmem => ?_) rfl (fun hmem => ?_) fun hmem _ row => ?_
    · simp only [holds, if_pos (List.mem_singleton.mp hmem).symm, Nat.one_pos]
    · exact if_neg fun hr => hmem (List.mem_singleton.mpr hr.symm)
    · rw [List.mem_singleton.mp hmem]
      exact .begin rfl rfl
  | @rollback projectId r phase h =>
    have hholds : holds runId (.runTask (.prerunCheck projectId r phase)) =
        if r = runId then 1 else 0 := by
      rcases h with rfl | rfl <;> rfl
    refine .of_release rfl (fun hmem => ?_) rfl (fun hmem => ?_) fun _ hupdated => ?_
    · rw [hholds, if_pos (List.mem_singleton.mp hmem).symm]
      exact Nat.one_pos
    · rw [hholds, if_neg fun hr => hmem (List.mem_singleton.mpr hr.symm)]
    · cases hupdated
  | @progress projectId r project hproject htype hlocked =>
    refine .of_modifyRun rfl (fun _ => rfl) (fun hr row hrow => ?_) fun _ _ => le_rfl
    subst hr
    exact .progress rfl hproject htype (by rwa [locked_of_get? hrow] at hlocked) rfl
  | @overLimit projectId r hlocked =>
    refine .of_modifyRun rfl (fun _ => rfl) (fun hr row hrow => ?_) fun _ _ => le_rfl
    subst hr
    exact .fail .overLimit (by rwa [locked_of_get? hrow] at hlocked) rfl
  | @complete r hlocked =>
    refine .of_modifyRun rfl (fun _ => rfl) (fun hr row hrow => ?_) fun _ _ => le_rfl
    subst hr
    exact .complete rfl (by rwa [locked_of_get? hrow] at hlocked) rfl
  | @recordFailure r hlocked =>
    refine .of_modifyRun rfl (fun _ => rfl) (fun hr row hrow => ?_) fun _ _ => le_rfl
    subst hr
    exact .fail .handler (by rwa [locked_of_get? hrow] at hlocked) rfl
  | @header projectId r headers i action phase phase' s' hphase hheader =>
    cases hheader with
    | markFailure hlocked =>
      refine .of_modifyRun rfl (fun _ => rfl) (fun hr row hrow => ?_) fun _ _ => le_rfl
      subst hr
      exact .fail (.header hphase) (by rwa [locked_of_get? hrow] at hlocked) rfl
    | _ => exact .of_eq rfl rfl
  | @fail t hended hlocks =>
    refine .of_eq rfl ?_
    cases t with
    | prerunCheck projectId r phase =>
      cases phase with
      | locked => exact absurd rfl (hlocks projectId r).1
      | activated => exact absurd rfl (hlocks projectId r).2
      | _ => rfl
    | _ => rfl
  | _ => exact .of_eq rfl rfl

theorem rowStep_of_step (hstep : ServiceStep settings s t a s' t' started) (runId : RunId) :
    RowStep runId s t a t' (s.runs.get? runId) (s'.runs.get? runId) := by
  cases hstep with
  | request => exact .of_eq rfl rfl
  | uploadTask => exact .of_eq rfl rfl
  | post h => exact rowStep_post h runId
  | check h => exact rowStep_check h runId
  | runTask h => exact rowStep_runTask h runId

theorem holds_of_scheduled {u : Process} (h : u.Scheduled) (runId : RunId) : holds runId u = 0 := by
  cases u with
  | check c =>
    have hphase : c.phase = .pending := by simpa [Process.Scheduled] using h
    simp only [holds, hphase]
  | runTask task =>
    cases task with
    | prerunCheck projectId r phase =>
      obtain rfl : phase = .pending := by simpa [Process.Scheduled] using h
      rfl
    | _ => rfl
  | _ => rfl

theorem holds_started (hstep : ServiceStep settings s t a s' t' started) (runId : RunId) :
    (started.map (holds runId)).sum = 0 := by
  refine List.sum_eq_zero fun n hn => ?_
  obtain ⟨u, hu, rfl⟩ := List.mem_map.mp hn
  have hscheduled := scheduled_of_step hstep u hu
  exact holds_of_scheduled hscheduled runId

/-- A locked row is not changed by a process that does not hold the lock. -/
theorem RowStep.eq_of_locked {row : RunRow} {row' : Option RunRow}
    (h : RowStep runId s t a t' (some row) row') (hlocked : row.locked = true)
    (hholds : holds runId t = 0) : row' = some row := by
  cases h with
  | same => rfl
  | release hheld => omega
  | change ht hphase hheld =>
    subst ht
    simp only [holds, hphase] at hholds
    exact absurd hheld (List.count_eq_zero.mp hholds)
  | begin ht =>
    subst ht
    simp [holds] at hholds
  | lock hfree | progress _ _ _ hfree | complete _ hfree | fail _ hfree =>
    rw [hlocked] at hfree
    cases hfree

/-- The number of processes that hold the lock follows the row. -/
theorem RowStep.locks {row row' : Option RunRow} (h : RowStep runId s t a t' row row') {n n' : ℕ}
    (hle : holds runId t ≤ n) (hn : n' + holds runId t = n + holds runId t')
    (hlock : n ≤ if row.any RunRow.locked then 1 else 0) :
    n' ≤ if row'.any RunRow.locked then 1 else 0 := by
  cases h with
  | same hholds | missing hholds => omega
  | post ht ht' =>
    subst ht ht'
    simp only [holds] at hn
    simp only [Option.any_none, Bool.false_eq_true, if_false] at hlock
    omega
  | lock hlocked hholds =>
    simp only [Option.any_some, hlocked, Bool.false_eq_true, if_false, if_true] at hlock ⊢
    omega
  | @release row hheld hholds =>
    cases hrow : row.locked <;> simp [hrow] at hlock <;> omega
  | @change c check held updated row ht hphase hheld hupdated hholds =>
    have hpos : 0 < holds runId t := by
      subst ht
      simpa only [holds, hphase] using List.count_pos_iff.mpr hheld
    cases hrow : row.locked <;> simp [hrow] at hlock <;> omega
  | @begin projectId row ht hholds =>
    have hpos : 0 < holds runId t := by
      subst ht
      simp [holds]
    cases hrow : row.locked <;> simp [hrow] at hlock <;> omega
  | @progress projectId project row ht _ _ hlocked hholds =>
    simp only [Option.any_some, hlocked, Bool.false_eq_true, if_false, progressStage] at hlock ⊢
    omega
  | @complete row ht hlocked hholds =>
    simp only [Option.any_some, hlocked, Bool.false_eq_true, if_false, markComplete] at hlock ⊢
    omega
  | @fail row ht hlocked hholds =>
    simp only [Option.any_some, hlocked, Bool.false_eq_true, if_false, markFailure] at hlock ⊢
    omega

end Step

def LocksHeld (p : Pool Server Process) : Prop :=
  ∀ runId, p.total (holds runId) ≤ if p.shared.locked runId then 1 else 0

theorem locksHeld_of_reaches {settings : Settings} {p₀ p : Pool Server Process}
    (hinit : LocksHeld p₀) (h : Pool.Reaches (service settings) p₀ p) : LocksHeld p := by
  refine h.invariant (I := LocksHeld) hinit ?_
  rintro s before t after a s' t' started - hlocks hprogram runId
  have hstep := serviceStep_of_step hprogram
  have htotal := Pool.total_step (holds runId) s s' before after started t t'
  have hle := Pool.le_total (f := holds runId) (p := ⟨s, before ++ t :: after⟩)
    List.mem_append_cons_self
  rw [holds_started hstep, Nat.add_zero] at htotal
  exact (rowStep_of_step hstep runId).locks hle htotal (hlocks runId)

end EntityService.Service
