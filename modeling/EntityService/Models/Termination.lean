import EntityService.Models.Isolation

/-! The requests and the tasks of a deployment come to an end, deletions included. Only the deletion
of a run can start again, when a worker writes to the same row. -/
namespace EntityService
open Lib Service

namespace Tasks.ProjectCleanup

/-- An upper bound for the steps that the request has left. -/
def DeletePhase.remaining : DeletePhase → ℕ
  | .received => 4
  | .exists => 3
  | .authorized => 2
  | .marked => 1
  | .accepted | .refused => 0

/-- The kind of the task by its next statement, and the runs that it has left to mark. -/
def RemovePhase.rank : RemovePhase → ℕ × ℕ
  | .pending => (27, 0)
  | .settingStates todo => (26, todo.length)
  | .gathered => (25, 0)
  | .resultsDeleted => (24, 0)
  | .permutationsDeleted => (23, 0)
  | .masksDeleted => (22, 0)
  | .committed => (21, 0)
  | .objectsGathered _ => (20, 0)
  | .ended | .failed => (19, 0)

def SystemProcess.rank : SystemProcess → ℕ × ℕ
  | .service t => t.rank
  | .deleteMinioObjects _ _ ended => (18, if ended then 0 else 1)
  | .removeProject t => t.phase.rank
  | .projectDelete r => (28, r.phase.remaining)

section Step
variable {settings : Settings} {s s' : Storage} {t t' : SystemProcess} {a : SystemAction}
  {started : List SystemProcess}

theorem remaining_deleteRequest {r : DeleteRequest} {a : Action} {phase : DeletePhase}
    {removes : Bool} (h : r.step s a = some (s', phase, removes)) :
    phase.remaining < r.phase.remaining := by
  unfold DeleteRequest.step at h
  split at h
  case h_1 =>
    split at h
    case h_1 hphase | h_2 hphase =>
      cases h
      rw [hphase]
      split_ifs <;> decide
    case h_3 hphase | h_4 hphase =>
      cases h
      rw [hphase]
      decide
    all_goals cases h
  case h_2 =>
    split_ifs at h with hended
    cases h
    cases hphase : r.phase with
    | accepted => exact absurd (.inl hphase) hended
    | refused => exact absurd (.inr hphase) hended
    | _ => exact Nat.succ_pos _
  case h_3 => cases h

/-- The task goes on to its next statement, and the last of them starts the deletion of objects. -/
theorem rank_removeProject {t t' : RemoveProject} {a : Action}
    (h : t.step s a = some (s', t', started)) :
    toLex t'.phase.rank < toLex t.phase.rank ∧ ∀ u ∈ started, u.rank.1 < t.phase.rank.1 := by
  rw [Prod.Lex.toLex_lt_toLex]
  unfold RemoveProject.step at h
  split at h
  case h_1 =>
    unfold RemoveProject.proceed at h
    split at h
    case h_2 hphase =>
      cases h
      rw [hphase]
      exact ⟨.inr ⟨rfl, Nat.lt_succ_self _⟩, by simp⟩
    case h_8 hphase =>
      obtain ⟨files, -, he⟩ := Option.map_eq_some_iff.mp h
      cases he
      rw [hphase]
      exact ⟨.inl (by simp [RemovePhase.rank]), by simp⟩
    case h_10 | h_11 => cases h
    all_goals
      rename_i hphase
      cases h
      rw [hphase]
      exact ⟨.inl (by simp [RemovePhase.rank]), by simp [SystemProcess.rank, RemovePhase.rank]⟩
  case h_2 =>
    split_ifs at h with hended
    cases h
    refine ⟨.inl ?_, by simp⟩
    cases hphase : t.phase with
    | ended => exact absurd (.inl hphase) hended
    | failed => exact absurd (.inr hphase) hended
    | _ => simp [RemovePhase.rank]
  case h_3 => cases h

theorem rank_system (h : system settings s t a = some (s', t', started)) :
    ∀ u ∈ t' :: started, toLex u.rank < toLex t.rank := by
  intro u hu
  rw [List.mem_cons] at hu
  cases t with
  | service t =>
    simp only [system, Option.bind_eq_bind, Option.bind_eq_some_iff, Option.pure_def] at h
    obtain ⟨⟨s₁, t₁, started₁⟩, hstep, h⟩ := h
    cases h
    obtain ⟨server, hservice, -⟩ := serviceStep_eq_some hstep
    have hbelow := below_of_step hservice
    rcases hu with rfl | hu
    · exact hbelow t₁ List.mem_cons_self
    · obtain ⟨task, htask, rfl⟩ := List.mem_map.mp hu
      exact hbelow task (List.mem_cons_of_mem _ htask)
  | projectDelete r =>
    simp only [system, Option.bind_eq_bind, Option.bind_eq_some_iff, Option.pure_def] at h
    obtain ⟨⟨s₁, phase, removes⟩, hstep, h⟩ := h
    cases h
    rw [Prod.Lex.toLex_lt_toLex]
    rcases hu with rfl | hu
    · exact .inr ⟨rfl, remaining_deleteRequest hstep⟩
    · split_ifs at hu
      · rw [List.mem_singleton.mp hu]
        exact .inl (by simp [SystemProcess.rank, RemovePhase.rank])
      · cases hu
  | removeProject t =>
    simp only [system, Option.bind_eq_bind, Option.bind_eq_some_iff, Option.pure_def] at h
    obtain ⟨⟨s₁, t₁, started₁⟩, hstep, h⟩ := h
    cases h
    obtain ⟨hphase, hstarted⟩ := rank_removeProject hstep
    rcases hu with rfl | hu
    · exact hphase
    · rw [Prod.Lex.toLex_lt_toLex]
      exact .inl (hstarted u hu)
  | deleteMinioObjects projectId filenames ended =>
    cases ended with
    | true => cases h
    | false =>
      have hrest : t' = .deleteMinioObjects projectId filenames true ∧ started = [] := by
        unfold system at h
        dsimp only at h
        split at h
        case h_1 | h_2 =>
          cases h
          exact ⟨rfl, rfl⟩
        case h_3 => cases h
      obtain ⟨rfl, rfl⟩ := hrest
      rw [Prod.Lex.toLex_lt_toLex]
      rcases hu with rfl | hu
      · exact .inr ⟨rfl, Nat.one_pos⟩
      · cases hu

/-- A process that has not ended may fail at least. -/
theorem SystemProcess.ended_of_stuck (h : ∀ a, system settings s t a = none) : t.Ended = true := by
  have hraise := h ⟨.raise, nothingWritten⟩
  cases t with
  | service t =>
    refine Service.ended_of_stuck fun a ha => (?_ : Service.service settings s.toServer t a = none)
    have hsystem := h ⟨a, nothingWritten⟩
    have hinserts : insertsFor s.toServer t a = none := by
      cases t <;> cases a <;> first | rfl | exact absurd rfl ha
    cases hstep : Service.service settings s.toServer t a with
    | none => rfl
    | some => simp [system, serviceStep, hstep, hinserts, ha] at hsystem
  | projectDelete r =>
    refine decide_eq_true ?_
    by_contra hphase
    simp [system, DeleteRequest.step, if_neg hphase] at hraise
  | removeProject t =>
    refine decide_eq_true ?_
    by_contra hphase
    simp [system, RemoveProject.step, if_neg hphase] at hraise
  | deleteMinioObjects projectId filenames ended =>
    cases ended with
    | true => rfl
    | false => cases hraise

end Step
end Tasks.ProjectCleanup

namespace Models
open Tasks.ProjectCleanup

def RunDeletePhase.remaining : RunDeletePhase → ℕ
  | .received => 6
  | .exists => 5
  | .authorized => 4
  | .stateDeleted => 3
  | .found _ => 2
  | .deleted _ => 1
  | .answered | .refused | .failed => 0

def DeployedProcess.rank : DeployedProcess → ℕ × ℕ
  | .system t => t.rank
  | .runDelete r => (29, r.phase.remaining)

/-- The process is of a later kind, or of the same kind with less to do. -/
def DeployedProcess.Below (u t : DeployedProcess) : Prop := toLex u.rank < toLex t.rank

theorem DeployedProcess.wellFounded_below : WellFounded Below :=
  InvImage.wf (fun t : DeployedProcess => toLex t.rank) wellFounded_lt

/-- The deletion of a run starts again, since a worker writes to the same row. -/
def DeployedAction.restarts : DeployedAction → Bool
  | .runDelete .integrityError => true
  | _ => false

section Step
variable {settings : Settings} {s s' : Storage} {t t' : DeployedProcess} {a : DeployedAction}
  {started : List DeployedProcess}

theorem remaining_runDelete {r : RunDelete} {a : RunDeleteAction} {phase : RunDeletePhase}
    {files : Option (List FileName)} (ha : a ≠ .integrityError)
    (h : r.step s a = some (s', phase, files)) : phase.remaining < r.phase.remaining := by
  cases a with
  | integrityError => exact absurd rfl ha
  | proceed =>
    change r.proceed s = _ at h
    unfold RunDelete.proceed at h
    split at h
    case h_1 hphase | h_2 hphase =>
      cases h
      rw [hphase]
      split_ifs <;> decide
    case h_4 hphase =>
      rw [hphase]
      split at h
      all_goals
        cases h
        simp [RunDeletePhase.remaining]
    case h_5 hphase =>
      split_ifs at h
      cases h
      rw [hphase]
      exact Nat.lt_succ_self 1
    case h_3 hphase | h_6 hphase =>
      cases h
      rw [hphase]
      simp [RunDeletePhase.remaining]
    all_goals cases h
  | raise =>
    unfold RunDelete.step at h
    dsimp only at h
    split at h
    case h_4 hanswered hrefused hfailed =>
      cases h
      cases hphase : r.phase with
      | answered => exact absurd hphase hanswered
      | refused => exact absurd hphase hrefused
      | failed => exact absurd hphase hfailed
      | _ => exact Nat.succ_pos _
    all_goals cases h

/-- What a step leaves and starts is below the process that takes it, but for a new start. -/
theorem below_deployed (ha : a.restarts = false)
    (h : deployed settings s t a = some (s', t', started)) : ∀ u ∈ t' :: started, u.Below t := by
  intro u hu
  rw [List.mem_cons] at hu
  unfold deployed at h
  split at h
  case h_1 t a =>
    simp only [Option.bind_eq_bind, Option.bind_eq_some_iff, Option.pure_def] at h
    obtain ⟨⟨s₁, t₁, started₁⟩, hstep, h⟩ := h
    cases h
    have hrank := rank_system hstep
    rcases hu with rfl | hu
    · exact hrank t₁ List.mem_cons_self
    · obtain ⟨task, htask, rfl⟩ := List.mem_map.mp hu
      exact hrank task (List.mem_cons_of_mem _ htask)
  case h_2 r a =>
    simp only [Option.bind_eq_bind, Option.bind_eq_some_iff, Option.pure_def] at h
    obtain ⟨⟨s₁, phase, files⟩, hstep, h⟩ := h
    cases h
    unfold DeployedProcess.Below
    rw [Prod.Lex.toLex_lt_toLex]
    rcases hu with rfl | hu
    · refine .inr ⟨rfl, remaining_runDelete ?_ hstep⟩
      rintro rfl
      cases ha
    · obtain ⟨files, -, rfl⟩ := Option.map_eq_some_iff.mp (Option.mem_toList.mp hu)
      exact .inl (by simp [DeployedProcess.rank, SystemProcess.rank])
  case h_3 => cases h

theorem DeployedProcess.ended_of_stuck
    (h : ∀ a, a.restarts = false → deployed settings s t a = none) : t.Ended = true := by
  cases t with
  | system t =>
    refine SystemProcess.ended_of_stuck fun a =>
      (?_ : Tasks.ProjectCleanup.system settings s t a = none)
    have hdeployed := h (.system a) rfl
    cases hstep : Tasks.ProjectCleanup.system settings s t a with
    | none => rfl
    | some => simp [deployed, hstep] at hdeployed
  | runDelete r =>
    have hraise := h (.runDelete .raise) rfl
    refine decide_eq_true ?_
    cases hphase : r.phase with
    | answered => exact .inl rfl
    | refused => exact .inr (.inl rfl)
    | failed => exact .inr (.inr rfl)
    | _ => simp [deployed, RunDelete.step, hphase] at hraise

end Step

section Run
variable {settings : Settings} {p : Pool Storage DeployedProcess}

theorem wellFounded_deployed (settings : Settings) : WellFounded fun p' p =>
    Pool.StepsTo ((deployed settings).restrict fun _ _ a => !a.restarts) p p' := by
  have hdescends : Pool.Descends ((deployed settings).restrict fun _ _ a => !a.restarts)
      DeployedProcess.Below := by
    intro s t a s' t' started hprogram
    obtain ⟨ha, hprogram⟩ := Program.restrict_eq_some.mp hprogram
    exact below_deployed (by simpa using ha) hprogram
  exact hdescends.wellFounded DeployedProcess.wellFounded_below

theorem stopped_deployed :
    Pool.Stopped (deployed settings) p ↔ ∀ t ∈ p.processes, t.Ended = true := by
  rw [Pool.stopped_iff]
  refine forall₂_congr fun t _ => ?_
  exact ⟨fun h => DeployedProcess.ended_of_stuck fun a _ => h a, deployed_of_ended⟩

/-- In whatever order the requests, the tasks and the deletions take their steps, and however they
fail, they go on for ever only if deletions of runs start again for ever. They stop when each
request has been answered and each task has ended. -/
theorem deployed_terminates (settings : Settings) (p : Pool Storage DeployedProcess) :
    (∀ (pools : ℕ → Pool Storage DeployedProcess) (indices : ℕ → ℕ) (actions : ℕ → DeployedAction),
      pools 0 = p → (∀ n, (pools n).step (deployed settings) (indices n) (actions n) =
        some (pools (n + 1))) → ∀ m, ∃ n ≥ m, (actions n).restarts = true) ∧
    (Pool.Stopped (deployed settings) p ↔ ∀ t ∈ p.processes, t.Ended = true) ∧
    ∃ p', Pool.Reaches (deployed settings) p p' ∧ ∀ t ∈ p'.processes, t.Ended = true := by
  refine ⟨?_, stopped_deployed, ?_⟩
  · intro pools indices actions _ hsteps m
    obtain ⟨n, hn, hrestarts⟩ := Pool.exists_not_allowed (wellFounded_deployed settings) hsteps m
    exact ⟨n, hn, by simpa using hrestarts⟩
  · obtain ⟨p', hreaches, hstopped⟩ := Pool.exists_stopped (wellFounded_deployed settings) p
    refine ⟨p', hreaches.of_restrict, fun t ht => ?_⟩
    refine DeployedProcess.ended_of_stuck fun a ha =>
      (?_ : deployed settings p'.shared t a = none)
    have hnone := Pool.stopped_iff.mp hstopped t ht a
    rwa [Program.restrict, if_pos (by simp [ha])] at hnone

end Run
end Models
end EntityService
