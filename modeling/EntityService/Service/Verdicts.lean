import EntityService.Service.RunTokens
import EntityService.Service.Settling

/-! The verdict on the encoding sizes of a project. Once its uploads are settled all checks come to
the same verdict, even if some of them have committed to a size in the meantime. -/
namespace EntityService.Service
open Lib

def CheckPhase.rows : CheckPhase → List RunId
  | .updating _ todo held _ => todo ++ held
  | .committed newRuns => newRuns
  | _ => []

def RunTask.ownRun : RunTask → Option (ProjectId × RunId)
  | .prerunCheck projectId runId _ | .createComparisonJobs projectId runId _ =>
    some (projectId, runId)
  | .chord projectId runId _ | .aggregateComparisons projectId runId _ _ => some (projectId, runId)
  | _ => none

def HasRun (s : Server) (projectId : ProjectId) (runId : RunId) : Prop :=
  ∃ row, s.runs.get? runId = some row ∧ row.project = projectId

def OwnRuns (s : Server) : Process → Prop
  | .check c => ∀ runId ∈ c.phase.rows, HasRun s c.projectId runId
  | .runTask t => ∀ projectId runId, t.ownRun = some (projectId, runId) → HasRun s projectId runId
  | _ => True

/-- A check that has found a verdict agrees with the verdict that would be found now. -/
def Agrees (settings : Settings) (db : Database) (projectId : ProjectId) (check : SizeCheck) :
    Prop :=
  (check.raises = false ↔ db.SizesAccepted settings projectId) ∧
    ∀ size, check.setSize = some size → db.chosenSize projectId = some size

/-- The verdict of a check that is going to act on it. -/
def CheckPhase.verdict : CheckPhase → Option SizeCheck
  | .sized check _ => some check
  | .updating check _ _ _ => some check
  | _ => none

def CheckPhase.FoundReady : CheckPhase → Bool
  | .pending | .ended => false
  | _ => true

/-- The checks of the project work on settled uploads and agree on the verdict. -/
structure Verdicts (settings : Settings) (projectId : ProjectId) (p : Pool Server Process) :
    Prop where
  settled : ∀ c, .check c ∈ p.processes → c.projectId = projectId → c.phase.FoundReady = true →
    Settled projectId p
  agrees : ∀ c check, .check c ∈ p.processes → c.projectId = projectId →
    c.phase.verdict = some check → Agrees settings p.shared.db projectId check

section Step
variable {settings : Settings} {s s' : Server} {t t' : Process} {a : Action}
  {started : List Process} {projectId : ProjectId} {runId : RunId}

/-- A run is never removed, and stays in its project. -/
theorem hasRun_step (hstep : ServiceStep settings s t a s' t' started)
    (h : HasRun s projectId runId) : HasRun s' projectId runId := by
  obtain ⟨row, hrow, hproject⟩ := h
  have hrows := rowStep_of_step hstep runId
  unfold HasRun
  rw [hrow] at hrows
  generalize s'.runs.get? runId = row' at hrows ⊢
  cases hrows with
  | @change c check held updated =>
    refine ⟨_, rfl, ?_⟩
    unfold Check.change
    split_ifs <;> exact hproject
  | _ => exact ⟨_, rfl, hproject⟩

theorem OwnRuns.step {u : Process} (hstep : ServiceStep settings s t a s' t' started)
    (h : OwnRuns s u) : OwnRuns s' u := by
  cases u with
  | check c => exact fun runId hmem => hasRun_step hstep (h runId hmem)
  | runTask task => exact fun projectId runId hown => hasRun_step hstep (h projectId runId hown)
  | _ => trivial

theorem ownRun_step {t t' : RunTask} {started : List RunTask}
    (h : RunTaskStep s t a s' t' started) :
    t'.ownRun = t.ownRun ∧ ∀ u ∈ started, u.ownRun = t.ownRun ∨ u.ownRun = none := by
  cases h with
  | schedule =>
    refine ⟨rfl, fun u hu => ?_⟩
    split_ifs at hu
    all_goals
      rw [List.mem_singleton.mp hu]
      exact .inl rfl
  | header =>
    refine ⟨rfl, fun u hu => ?_⟩
    unfold chordSchedules at hu
    split_ifs at hu
    · rw [List.mem_singleton.mp hu]
      exact .inr rfl
    · rw [List.mem_singleton.mp hu]
      exact .inl rfl
    · cases hu
  | followAggregation | followGroups =>
    refine ⟨rfl, fun u hu => ?_⟩
    split_ifs at hu
    all_goals
      rw [List.mem_singleton.mp hu]
      exact .inr rfl
  | start =>
    refine ⟨rfl, fun u hu => ?_⟩
    rw [List.mem_singleton.mp hu]
    exact .inl rfl
  | solve | followPermutation =>
    refine ⟨rfl, fun u hu => ?_⟩
    rw [List.mem_singleton.mp hu]
    exact .inr rfl
  | fail =>
    refine ⟨by cases t <;> rfl, fun u hu => ?_⟩
    cases t with
    | createComparisonJobs | aggregateComparisons =>
      rw [List.mem_singleton.mp hu]
      exact .inr rfl
    | _ => cases hu
  | _ => exact ⟨rfl, nofun⟩

theorem ownRuns_step (hfound : Found s t) (hown : OwnRuns s t)
    (hstep : ServiceStep settings s t a s' t' started) :
    OwnRuns s' t' ∧ ∀ u ∈ started, OwnRuns s' u := by
  have hstep' := hstep
  cases hstep with
  | request | uploadTask =>
    refine ⟨trivial, fun u hu => ?_⟩
    obtain ⟨schedule, -, rfl⟩ := List.mem_map.mp hu
    cases schedule with
    | checkForExecutableRuns => exact nofun
    | _ => trivial
  | post =>
    refine ⟨trivial, fun u hu => ?_⟩
    split_ifs at hu
    · rw [List.mem_singleton.mp hu]
      exact nofun
    · cases hu
  | @check c a s' phase newRun h =>
    have hkeep : ∀ runId ∈ c.phase.rows, HasRun s' c.projectId runId := fun runId hmem =>
      hasRun_step hstep' (hown runId hmem)
    have hphase : ∀ runId ∈ phase.rows, HasRun s' c.projectId runId := by
      intro runId hmem
      cases h with
      | testReady => split_ifs at hmem <;> cases hmem
      | beginUpdate =>
        rcases List.mem_append.mp hmem with hmem | hmem
        · obtain ⟨row, hrow, hproject, -⟩ := mem_findRuns.mp hmem
          exact ⟨row, hrow, hproject⟩
        · cases hmem
      | skipRun h =>
        refine hkeep runId ?_
        rw [h]
        exact List.mem_cons_of_mem _ hmem
      | lockRun h =>
        refine hkeep runId ?_
        rw [h]
        exact List.perm_middle.mem_iff.mp hmem
      | @commit check held updated h =>
        refine hkeep runId ?_
        unfold CheckPhase.rows Check.newRuns at hmem
        rw [h]
        split_ifs at hmem
        · cases hmem
        · exact (hfound _ _ _ _ h).1.subset hmem
      | schedule h =>
        refine hkeep runId ?_
        rw [h]
        exact List.mem_cons_of_mem _ hmem
      | _ => cases hmem
    refine ⟨hphase, fun u hu => ?_⟩
    obtain ⟨r, hr, rfl⟩ := Option.map_eq_some_iff.mp (Option.mem_toList.mp hu)
    intro projectId runId hrun
    cases hrun
    cases h with
    | schedule h =>
      cases hr
      refine hkeep r ?_
      rw [h]
      exact List.mem_cons_self
    | _ => cases hr
  | @runTask t t' a s' started h =>
    obtain ⟨ht', hstarted⟩ := ownRun_step h
    refine ⟨fun projectId runId hrun => ?_, fun u hu => ?_⟩
    · exact hasRun_step hstep' (hown projectId runId (ht' ▸ hrun))
    · obtain ⟨task, htask, rfl⟩ := List.mem_map.mp hu
      intro projectId runId hrun
      rcases hstarted task htask with h | h
      · exact hasRun_step hstep' (hown projectId runId (h ▸ hrun))
      · rw [h] at hrun
        cases hrun

/-- The projects are changed by a check that commits an encoding size, and by nothing else. -/
theorem projects_step (hstep : ServiceStep settings s t a s' t' started) :
    s'.db.projects = s.db.projects ∨ ∃ c check held updated size,
      t = .check c ∧ c.phase = .updating check [] held updated ∧ check.setSize = some size ∧
        s'.db = s.db.setProjectEncodingSize c.projectId size := by
  cases hstep with
  | request h =>
    left
    cases h with
    | insert _ hok => exact (UploadRequest.insertOwnMetadata_ok hok).1.projects
    | store _ hok => exact (Upload.setReady_ok hok).1.projects
    | lock => rw [Database.lock_eq]
    | _ => rfl
  | uploadTask h =>
    left
    cases h with
    | invalidate _ hok => exact (Database.changesUploads_invalidateUpload hok).1.projects
    | setReady _ hok => exact (Upload.setReady_ok hok).1.projects
    | insertReady _ hok => exact (Upload.insertReady_ok hok).1.projects
    | insertMetadata _ hok => exact (Upload.insertSizedMetadata_ok hok).1.projects
    | recordError =>
      dsimp only [Database.updateUploadState]
      split_ifs <;> rfl
    | _ => rfl
  | post h => exact .inl (by rw [db_postStep h])
  | @check c a s' phase newRun h =>
    cases h with
    | invalidate _ hok => exact .inl (Database.changesUploads_invalidateUpload hok).1.projects
    | @commit check held updated h =>
      cases hsize : check.setSize with
      | none =>
        left
        rw [db_commit, hsize]
        rfl
      | some size =>
        refine .inr ⟨c, check, held, updated, size, rfl, h, hsize, ?_⟩
        rw [db_commit, hsize]
        rfl
    | _ => exact .inl rfl
  | runTask h => exact .inl (by rw [db_runTaskStep h])

theorem findProject_step (hstep : ServiceStep settings s t a s' t' started) :
    (∀ p, s'.db.findProject p = s.db.findProject p) ∨ ∃ c check held updated size,
      t = .check c ∧ c.phase = .updating check [] held updated ∧ check.setSize = some size ∧
        s'.db = s.db.setProjectEncodingSize c.projectId size := by
  rcases projects_step hstep with h | h
  · left
    intro p
    rw [Database.findProject, h]
    rfl
  · exact .inr h

/-- The choice of the size and the verdict stay as they are once the uploads are settled. -/
theorem verdict_step {before after : List Process} (honce : uploadsOnce projectId s t a)
    (hstep : ServiceStep settings s t a s' t' started)
    (hsettled : Settled projectId ⟨s, before ++ t :: after⟩)
    (hagrees : ∀ c check, t = .check c → c.projectId = projectId →
      c.phase.verdict = some check → Agrees settings s.db projectId check) :
    s'.db.chosenSize projectId = s.db.chosenSize projectId ∧
      (s'.db.SizesAccepted settings projectId ↔ s.db.SizesAccepted settings projectId) := by
  have hsizes : s'.db.getUploadedEncodingSizes projectId =
      s.db.getUploadedEncodingSizes projectId :=
    Database.getUploadedEncodingSizes_congr (providerKeys_step hstep)
      (settled_step honce hstep hsettled).2
  have hchosen : s'.db.chosenSize projectId = s.db.chosenSize projectId := by
    rcases findProject_step hstep with hproject |
      ⟨c, check, held, updated, size, ht, hphase, hsize, hdb⟩
    · exact Database.chosenSize_congr (hproject projectId) hsizes
    · rw [hdb]
      refine Database.chosenSize_setProjectEncodingSize fun hp => ?_
      exact (hagrees c check ht hp.symm (by rw [hphase]; rfl)).2 size hsize
  exact ⟨hchosen, Database.sizesAccepted_congr hsizes hchosen⟩

theorem Agrees.congr {db db' : Database} {check : SizeCheck}
    (hchosen : db'.chosenSize projectId = db.chosenSize projectId)
    (haccepted : db'.SizesAccepted settings projectId ↔ db.SizesAccepted settings projectId)
    (h : Agrees settings db projectId check) : Agrees settings db' projectId check :=
  ⟨h.1.trans haccepted.symm, fun size hsize => hchosen.trans (h.2 size hsize)⟩

theorem verdicts_step {before after : List Process} (honce : uploadsOnce projectId s t a)
    (hcomplete : s.db.Complete projectId) (hstored : Stored projectId ⟨s, before ++ t :: after⟩)
    (hstep : ServiceStep settings s t a s' t' started)
    (h : Verdicts settings projectId ⟨s, before ++ t :: after⟩) :
    Verdicts settings projectId ⟨s', before ++ t' :: after ++ started⟩ := by
  have hstable : Settled projectId ⟨s, before ++ t :: after⟩ →
      Settled projectId ⟨s', before ++ t' :: after ++ started⟩ := fun hsettled =>
    (settled_step honce hstep hsettled).1
  have hverdict : Settled projectId ⟨s, before ++ t :: after⟩ → ∀ check,
      Agrees settings s.db projectId check → Agrees settings s'.db projectId check := by
    intro hsettled check hagrees
    obtain ⟨hchosen, haccepted⟩ := verdict_step honce hstep hsettled fun c check ht =>
      h.agrees c check (ht ▸ List.mem_append_cons_self)
    exact hagrees.congr hchosen haccepted
  have hready : ∀ phase : CheckPhase, ∀ check, phase.verdict = some check →
      phase.FoundReady = true := by
    intro phase check hphase
    cases phase with
    | pending | ended => cases hphase
    | _ => rfl
  -- what holds of every process but the one that takes the step
  have hother : ∀ u ∈ before ++ t :: after, ∀ c, u = .check c → c.projectId = projectId →
      (c.phase.FoundReady = true → Settled projectId ⟨s', before ++ t' :: after ++ started⟩) ∧
        ∀ check, c.phase.verdict = some check → Agrees settings s'.db projectId check := by
    rintro u hu c rfl hproject
    refine ⟨fun hfound => hstable (h.settled c hu hproject hfound), fun check hphase => ?_⟩
    exact hverdict (h.settled c hu hproject (hready c.phase check hphase)) check
      (h.agrees c check hu hproject hphase)
  have hself : ∀ c, t' = .check c → c.projectId = projectId →
      (c.phase.FoundReady = true → Settled projectId ⟨s', before ++ t' :: after ++ started⟩) ∧
        ∀ check, c.phase.verdict = some check → Agrees settings s'.db projectId check := by
    rintro c rfl hproject
    cases hstep with
    | @check c a s' phase newRun hcheck =>
      obtain ⟨hfound, hagrees⟩ := hother _ List.mem_append_cons_self c rfl hproject
      cases hcheck with
      | testReady hphase hready =>
        split_ifs with hif
        · subst hif
          exact ⟨fun _ => hstable (settled_of_ready hstored hcomplete (hproject ▸ hready)),
            by simp [CheckPhase.verdict]⟩
        · simp [CheckPhase.FoundReady, CheckPhase.verdict]
      | checkSizes hphase hcheck =>
        refine ⟨fun _ => hfound (by rw [hphase]; rfl), fun check hverdict => ?_⟩
        cases hverdict
        rw [hproject] at hcheck
        exact Database.checkProjectEncodingSize_ok hcheck
      | invalidate hphase | beginUpdate hphase | skipRun hphase | lockRun hphase =>
        rw [hphase] at hfound hagrees
        exact ⟨fun _ => hfound rfl, hagrees⟩
      | commit hphase | schedule hphase =>
        rw [hphase] at hfound
        exact ⟨fun _ => hfound rfl, by simp [CheckPhase.verdict]⟩
      | _ => simp [CheckPhase.FoundReady, CheckPhase.verdict]
  have hall : ∀ u ∈ before ++ t' :: after ++ started, ∀ c, u = .check c →
      c.projectId = projectId →
        (c.phase.FoundReady = true → Settled projectId ⟨s', before ++ t' :: after ++ started⟩) ∧
          ∀ check, c.phase.verdict = some check → Agrees settings s'.db projectId check := by
    refine Pool.forall_step hother (fun _ _ hu => hu) (fun _ => hself) ?_
    rintro u hu c rfl hproject
    have hphase : c.phase = .pending := by
      simpa [Process.Scheduled] using scheduled_of_step hstep _ hu
    simp [hphase, CheckPhase.FoundReady, CheckPhase.verdict]
  exact ⟨fun c hc hproject => (hall _ hc c rfl hproject).1,
    fun c check hc hproject => (hall _ hc c rfl hproject).2 check⟩

end Step

section Reaches
variable {settings : Settings} {p₀ p : Pool Server Process} {projectId : ProjectId}

theorem delivered_of_arriving {t : Process} (h : t.Arriving) : t.Delivered := by
  cases t with
  | request => exact h
  | post => exact h
  | _ => cases h

theorem ownRuns_of_reaches (hinit : ∀ t ∈ p₀.processes, t.Arriving)
    (h : Pool.Reaches (service settings) p₀ p) : ∀ t ∈ p.processes, OwnRuns p.shared t := by
  refine h.invariant (I := fun p => ∀ t ∈ p.processes, OwnRuns p.shared t) ?_ ?_
  · intro t ht
    have harriving := hinit t ht
    cases t with
    | check | runTask => cases harriving
    | _ => trivial
  · rintro s before t after a s' t' started hreaches hown hprogram
    have hstep := serviceStep_of_step hprogram
    have hfound := found_of_reaches (fun t ht => delivered_of_arriving (hinit t ht)) hreaches t
      List.mem_append_cons_self
    have hself := ownRuns_step hfound (hown t List.mem_append_cons_self) hstep
    exact Pool.forall_step hown (fun u _ hu => hu.step hstep) (fun _ => hself.1) hself.2

theorem verdicts_of_reaches (hinit : ∀ t ∈ p₀.processes, t.Arriving)
    (hsingle : p₀.shared.db.SingleUploadsOf projectId)
    (hcomplete : p₀.shared.db.Complete projectId)
    (h : Pool.Reaches ((service settings).restrict (uploadsOnce projectId)) p₀ p) :
    Verdicts settings projectId p := by
  refine h.invariant (I := Verdicts settings projectId) ?_ ?_
  · constructor
    · intro c hc
      cases hinit _ hc
    · intro c check hc
      cases hinit _ hc
  · rintro s before t after a s' t' started hreaches hverdicts hprogram
    obtain ⟨honce, hprogram⟩ := Program.restrict_eq_some.mp hprogram
    exact verdicts_step honce (complete_of_reaches hcomplete hreaches.of_restrict)
      (stored_of_reaches hinit hsingle hreaches) (serviceStep_of_step hprogram) hverdicts

end Reaches
end EntityService.Service
