import EntityService.Lib.Termination
import EntityService.Service.RunSteps
import Mathlib.Data.Prod.Lex

/-! The requests and the background tasks come to an end, whatever they do and however they fail.
A task schedules only tasks of later kinds, and each phase of a task comes once. -/
namespace EntityService.Service
open Lib

/-- An upper bound for the steps that a request has left. -/
def RequestPhase.remaining : RequestPhase → ℕ
  | .received => 8
  | .locked => 7
  | .inserted => 6
  | .handedOver => 5
  | .accepted => 4
  | .done => 3
  | .allUploaded => 2
  | .raised _ => 1
  | .created | .refused => 0

def UploadTaskPhase.remaining : UploadTaskPhase → ℕ
  | .handleRawUpload => 8
  | .encodingsStored => 7
  | .invalidSize => 6
  | .sizeChecked => 5
  | .rawReady => 4
  | .allReady => 2
  | .pullExternalData _ => 6
  | .metadataInserted => 5
  | .pulled => 4
  | .allUploaded => 2
  | .handleUploadError => 1
  | .ended => 0

def TaskPhase.remaining {α : Type} : TaskPhase α → ℕ
  | .pending => 2
  | .committed _ => 1
  | .ended => 0

def PrerunPhase.remaining : PrerunPhase → ℕ
  | .pending => 5
  | .missing => 4
  | .locked => 3
  | .activated => 2
  | .started => 1
  | .ended => 0

def HeaderPhase.remaining : HeaderPhase → ℕ
  | .pending => 3
  | .active => 2
  | .celeryBugFix | .overLimit => 1
  | .returned _ | .failed => 0

/-- The kind of a check by its transaction, and the rows that the transaction has left. -/
def CheckPhase.rank : CheckPhase → ℕ × ℕ
  | .pending => (14, 0)
  | .ready => (13, 0)
  | .sized _ invalid => (12, invalid.length)
  | .updating _ todo _ _ => (11, todo.length)
  | .committed newRuns => (10, newRuns.length)
  | .ended => (9, 0)

def RunTask.rank : RunTask → ℕ × ℕ
  | .prerunCheck _ _ phase => (8, phase.remaining)
  | .createComparisonJobs _ _ phase => (7, phase.remaining)
  | .chord _ _ headers => (6, (headers.map HeaderPhase.remaining).sum)
  | .aggregateComparisons _ _ _ phase => (5, phase.remaining)
  | .solverTask _ _ phase => (4, phase.remaining)
  | .saveAndPermute _ _ phase => (3, phase.remaining)
  | .permuteMappingData _ phase => (2, phase.remaining)
  | .markRunComplete _ phase => (1, phase.remaining)
  | .runFailedHandler _ phase => (0, phase.remaining)

def Process.rank : Process → ℕ × ℕ
  | .request r => (17, r.phase.remaining)
  | .uploadTask t => (16, t.phase.remaining)
  | .post p => (15, p.phase.remaining)
  | .check c => c.phase.rank
  | .runTask t => t.rank

/-- The process is of a later kind, or of the same kind with less to do. -/
def Below (u t : Process) : Prop := toLex u.rank < toLex t.rank

theorem below_iff {u t : Process} :
    Below u t ↔ u.rank.1 < t.rank.1 ∨ u.rank.1 = t.rank.1 ∧ u.rank.2 < t.rank.2 := by
  unfold Below
  rw [Prod.Lex.toLex_lt_toLex]

theorem wellFounded_below : WellFounded Below :=
  InvImage.wf (fun t : Process => toLex t.rank) wellFounded_lt

section Step
variable {settings : Settings} {s s' : Server} {t t' : Process} {a : Action}
  {started : List Process}

theorem RequestPhase.remaining_of_not_answered {phase : RequestPhase}
    (h : phase.Answered = false) : 0 < phase.remaining := by
  cases phase with
  | created | refused => cases h
  | _ => exact Nat.succ_pos _

theorem RequestPhase.remaining_of_guarded {phase : RequestPhase} (h : phase.Guarded = true) :
    1 < phase.remaining := by
  cases phase with
  | locked | inserted | handedOver => simp [remaining]
  | _ => cases h

theorem remaining_requestStep {r : UploadRequest} {db db' : Database} {phase : RequestPhase}
    {schedules : List Schedule} (h : RequestStep db r a db' phase schedules) :
    phase.remaining < r.phase.remaining := by
  cases h with
  | check h =>
    rw [h]
    split_ifs <;> decide
  | fail _ h => exact RequestPhase.remaining_of_guarded h
  | abort _ _ h => exact RequestPhase.remaining_of_not_answered h
  | lock h | refuse h | insert h | delegate h | delegateRaw h | store h | leave h | setDone h
  | notify h =>
    rw [h]
    decide
  | reset h =>
    rw [h]
    exact Nat.one_pos

theorem UploadTaskPhase.remaining_of_ne_ended {phase : UploadTaskPhase} (h : phase ≠ .ended) :
    0 < phase.remaining := by
  cases phase with
  | ended => exact absurd rfl h
  | _ => exact Nat.succ_pos _

theorem remaining_uploadTaskStep {t : UploadTask} {db db' : Database} {phase : UploadTaskPhase}
    {schedules : List Schedule} (h : UploadTaskStep settings db t a db' phase schedules) :
    phase.remaining < t.phase.remaining := by
  cases h with
  | checkSize h hphase =>
    rw [h]
    rcases hphase with rfl | rfl <;> decide
  | setReady h =>
    cases hphase : t.phase with
    | sizeChecked | metadataInserted =>
      rw [hphase] at h
      cases h
      decide
    | _ =>
      rw [hphase] at h
      cases h
  | checkReady h | checkUploaded h =>
    rw [h]
    split_ifs <;> decide
  | notify h =>
    rcases h with h | h <;> rw [h] <;> decide
  | fail h => exact UploadTaskPhase.remaining_of_ne_ended h
  | storeEncodings h | invalidate h | insertReady h | insertMetadata h | recordError h =>
    rw [h]
    decide

/-- Only the tasks that read from the object store have an error callback, which has none. -/
theorem remaining_of_errorCallback {t : UploadTask} {schedule : Schedule}
    (h : schedule ∈ t.errorCallback) :
    schedule = .handleUploadError t.upload ∧ 1 < t.phase.remaining := by
  unfold UploadTask.errorCallback at h
  split at h
  case h_5 => cases h
  all_goals
    rename_i hphase
    rw [hphase]
    exact ⟨List.mem_singleton.mp h, by simp [UploadTaskPhase.remaining]⟩

theorem rank_checkStep {c : Check} {phase : CheckPhase} {newRun : Option RunId}
    (h : CheckStep settings c s a s' phase newRun) : toLex phase.rank < toLex c.phase.rank := by
  rw [Prod.Lex.toLex_lt_toLex]
  cases h with
  | testReady h =>
    rw [h]
    split_ifs <;> exact .inl (by decide)
  | checkSizes h | beginUpdate h | commit h | finish h | rollback h =>
    rw [h]
    exact .inl (by simp [CheckPhase.rank])
  | invalidate h | skipRun h | lockRun h | schedule h =>
    rw [h]
    exact .inr ⟨rfl, by simp [CheckPhase.rank]⟩
  | fail h =>
    cases hphase : c.phase with
    | ended => exact absurd hphase h
    | _ => exact .inl (by simp [CheckPhase.rank])

theorem HeaderStep.remaining {runId : RunId} {phase phase' : HeaderPhase}
    (h : HeaderStep s runId phase s' phase') : phase'.remaining < phase.remaining := by
  cases h with
  | fail h =>
    rcases h with rfl | rfl | rfl <;> decide
  | _ => decide

/-- A step of one task of a chord leaves the chord less to do. -/
theorem sum_remaining_set {headers : List HeaderPhase} {i : ℕ} {phase phase' : HeaderPhase}
    (hphase : headers[i]? = some phase) (hlt : phase'.remaining < phase.remaining) :
    ((headers.set i phase').map HeaderPhase.remaining).sum <
      (headers.map HeaderPhase.remaining).sum := by
  obtain ⟨hi, rfl⟩ := List.getElem?_eq_some_iff.mp hphase
  obtain ⟨before, after, hlist, -, hset⟩ := List.exists_of_set hi
  rw [hset, hlist]
  simp only [List.map_append, List.map_cons, List.sum_append, List.sum_cons]
  omega

/-- A chord ends with its body, or with the error callback of its body. -/
theorem rank_chordSchedules {projectId : ProjectId} {runId : RunId} {phase : HeaderPhase}
    {headers : List HeaderPhase} {u : RunTask}
    (h : u ∈ chordSchedules projectId runId phase headers) : u.rank.1 < 6 := by
  unfold chordSchedules at h
  split_ifs at h
  · rw [List.mem_singleton.mp h]
    exact Nat.succ_pos 5
  · rw [List.mem_singleton.mp h]
    exact Nat.lt_succ_self 5
  · cases h

theorem RunTask.rank_ended (t : RunTask) : t.ended.rank.1 = t.rank.1 := by
  cases t <;> rfl

theorem TaskPhase.remaining_of_ne_ended {α : Type} {phase : TaskPhase α} (h : phase ≠ .ended) :
    0 < phase.remaining := by
  cases phase with
  | ended => exact absurd rfl h
  | _ => exact Nat.succ_pos _

theorem RunTask.remaining_of_ne_ended {t : RunTask} (h : t ≠ t.ended) :
    t.ended.rank.2 < t.rank.2 := by
  cases t with
  | chord => exact absurd rfl h
  | prerunCheck projectId runId phase =>
    cases phase with
    | ended => exact absurd rfl h
    | _ => exact Nat.succ_pos _
  | _ =>
    refine TaskPhase.remaining_of_ne_ended fun hphase => h ?_
    rw [hphase]
    rfl

theorem rank_errorCallback {t u : RunTask} (h : u ∈ t.errorCallback) : u.rank.1 < t.rank.1 := by
  cases t with
  | createComparisonJobs | aggregateComparisons =>
    rw [List.mem_singleton.mp h]
    exact Nat.succ_pos _
  | _ => cases h

theorem rank_runTaskStep {t t' : RunTask} {started : List RunTask}
    (h : RunTaskStep s t a s' t' started) : toLex t'.rank < toLex t.rank := by
  rw [Prod.Lex.toLex_lt_toLex]
  cases h with
  | testMissing =>
    refine .inr ⟨rfl, ?_⟩
    split_ifs <;> simp [RunTask.rank, PrerunPhase.remaining]
  | header hphase hstep => exact .inr ⟨rfl, sum_remaining_set hphase hstep.remaining⟩
  | rollback h =>
    refine .inr ⟨rfl, ?_⟩
    rcases h with rfl | rfl <;> simp [RunTask.rank, PrerunPhase.remaining]
  | fail h => exact .inr ⟨t.rank_ended, RunTask.remaining_of_ne_ended h⟩
  | _ => exact .inr ⟨rfl, by simp [RunTask.rank, PrerunPhase.remaining, TaskPhase.remaining]⟩

theorem rank_started {t t' u : RunTask} {started : List RunTask}
    (h : RunTaskStep s t a s' t' started) (hu : u ∈ started) : u.rank.1 < t.rank.1 := by
  cases h with
  | schedule packages =>
    split_ifs at hu <;> rw [List.mem_singleton.mp hu] <;> simp [RunTask.rank]
  | header => exact rank_chordSchedules hu
  | followAggregation | followGroups =>
    split_ifs at hu <;> rw [List.mem_singleton.mp hu] <;> simp [RunTask.rank]
  | start | solve | followPermutation =>
    rw [List.mem_singleton.mp hu]
    simp [RunTask.rank]
  | fail => exact rank_errorCallback hu
  | _ => cases hu

theorem below_of_started (hstep : ServiceStep settings s t a s' t' started) {u : Process}
    (hu : u ∈ started) : Below u t := by
  rw [below_iff]
  cases hstep with
  | request =>
    obtain ⟨schedule, -, rfl⟩ := List.mem_map.mp hu
    cases schedule <;> exact .inl (by simp [Schedule.process, Process.rank, CheckPhase.rank])
  | @uploadTask t a db phase schedules h =>
    obtain ⟨schedule, hschedule, rfl⟩ := List.mem_map.mp hu
    cases h with
    | notify =>
      rw [List.mem_singleton.mp hschedule]
      exact .inl (by simp [Schedule.process, Process.rank, CheckPhase.rank])
    | fail =>
      obtain ⟨rfl, hlt⟩ := remaining_of_errorCallback hschedule
      exact .inr ⟨rfl, hlt⟩
    | _ => cases hschedule
  | post =>
    split_ifs at hu
    · rw [List.mem_singleton.mp hu]
      exact .inl (by simp [Process.rank, CheckPhase.rank])
    · cases hu
  | @check c a s' phase newRun h =>
    obtain ⟨runId, -, rfl⟩ := Option.map_eq_some_iff.mp (Option.mem_toList.mp hu)
    refine .inl ?_
    change 8 < c.phase.rank.1
    cases c.phase <;> simp [CheckPhase.rank]
  | runTask h =>
    obtain ⟨task, htask, rfl⟩ := List.mem_map.mp hu
    exact .inl (rank_started h htask)

theorem below_of_step (hstep : ServiceStep settings s t a s' t' started) :
    ∀ u ∈ t' :: started, Below u t := by
  intro u hu
  rcases List.mem_cons.mp hu with rfl | hu
  · cases hstep with
    | request h => exact below_iff.mpr (.inr ⟨rfl, remaining_requestStep h⟩)
    | uploadTask h => exact below_iff.mpr (.inr ⟨rfl, remaining_uploadTaskStep h⟩)
    | @post p a s' phase checks h =>
      refine below_iff.mpr (.inr ⟨rfl, ?_⟩)
      cases h with
      | insert h | notify h => simp [Process.rank, h, TaskPhase.remaining]
      | fail h => exact TaskPhase.remaining_of_ne_ended h
    | check h => exact rank_checkStep h
    | runTask h => exact rank_runTaskStep h
  · exact below_of_started hstep hu

end Step

theorem HeaderPhase.stopped_iff {s : Server} {runId : RunId} {phase : HeaderPhase} :
    (∀ action, phase.step s runId action = none) ↔ phase.hasReturned = true ∨ phase = .failed := by
  constructor
  · intro h
    cases phase with
    | pending | active | overLimit => cases h .fail
    | celeryBugFix => cases h .result
    | returned | failed => simp [hasReturned]
  · intro h action
    cases phase with
    | returned | failed => cases action <;> rfl
    | _ => simp [hasReturned] at h

theorem RunTask.chord_hasEnded {projectId : ProjectId} {runId : RunId}
    {headers : List HeaderPhase} : (chord projectId runId headers).hasEnded = true ↔
      ∀ phase ∈ headers, phase.hasReturned = true ∨ phase = .failed := by
  simp [hasEnded]

theorem RunTask.step_ended (s : Server) (a : Action) {t : RunTask}
    (h : ∀ projectId runId headers, t ≠ .chord projectId runId headers) :
    t.ended.step s a = none := by
  cases a with
  | raise =>
    have hended : t.ended = t.ended.ended := by cases t <;> rfl
    exact if_pos hended
  | _ =>
    cases t with
    | chord => exact absurd rfl (h _ _ _)
    | aggregateComparisons projectId runId complete phase => cases complete <;> rfl
    | runFailedHandler runId phase => cases runId <;> rfl
    | _ => rfl

theorem RunTask.step_of_hasEnded {t : RunTask} (h : t.hasEnded = true) (s : Server) (a : Action) :
    t.step s a = none := by
  cases t with
  | chord projectId runId headers =>
    cases a with
    | header i action =>
      cases hphase : headers[i]? with
      | none => simp [step, hphase]
      | some phase =>
        have hstopped := chord_hasEnded.mp h phase (List.mem_of_getElem? hphase)
        simp [step, hphase, HeaderPhase.stopped_iff.mpr hstopped action]
    | raise => exact if_pos rfl
    | _ => rfl
  | _ =>
    rw [of_decide_eq_true h]
    exact step_ended s a (by simp)

/-- The tasks of a chord go on one by one, and every other task that has not ended may fail. -/
theorem RunTask.hasEnded_of_stuck {s : Server} {t : RunTask}
    (h : ∀ a, a ≠ .proceed → t.step s a = none) : t.hasEnded = true := by
  cases t with
  | chord projectId runId headers =>
    refine chord_hasEnded.mpr fun phase hmem => ?_
    refine HeaderPhase.stopped_iff.mp fun action => (?_ : phase.step s runId action = none)
    obtain ⟨i, hi⟩ := List.mem_iff_getElem?.mp hmem
    have hheader := h (.header i action) (by simp)
    cases hstep : phase.step s runId action with
    | none => rfl
    | some => simp [step, hi, hstep] at hheader
  | _ =>
    refine decide_eq_true ?_
    by_contra hended
    have hraise := h .raise (by simp)
    rw [step, if_neg hended] at hraise
    cases hraise

theorem UploadRequest.step_of_ended {r : UploadRequest}
    (h : r.phase = .created ∨ r.phase = .refused) (db : Database) (a : Action) :
    r.step db a = none := by
  rcases h with h | h
  all_goals cases a <;> simp [step, proceed, raise, h]

theorem UploadRequest.ended_of_raise {r : UploadRequest} {db : Database}
    (h : r.step db .raise = none) : r.phase = .created ∨ r.phase = .refused := by
  simp only [step, Option.map_eq_none_iff] at h
  unfold raise at h
  split at h
  case h_4 hphase => exact .inl hphase
  case h_5 hphase => exact .inr hphase
  all_goals cases h

theorem UploadTask.step_of_ended {settings : Settings} {t : UploadTask} (h : t.phase = .ended)
    (db : Database) (a : Action) : t.step settings db a = none := by
  cases a <;> simp [step, proceed, raise, h]

theorem UploadTask.ended_of_raise {settings : Settings} {t : UploadTask} {db : Database}
    (h : t.step settings db .raise = none) : t.phase = .ended := by
  simp only [step, Option.map_eq_none_iff] at h
  unfold raise at h
  split at h
  case h_1 hphase => exact hphase
  case h_2 => cases h

theorem Post.step_of_ended {p : Post} (h : p.phase = .ended) (s : Server) (a : Action) :
    p.step s a = none := by
  cases a <;> simp [step, proceed, h]

theorem Post.ended_of_raise {p : Post} {s : Server} (h : p.step s .raise = none) :
    p.phase = .ended := by
  by_contra hended
  rw [step, if_neg hended] at h
  cases h

theorem Check.step_of_ended {settings : Settings} {c : Check} (h : c.phase = .ended) (s : Server)
    (a : Action) : c.step settings s a = none := by
  cases a <;> simp [step, proceed, raise, h]

theorem Check.ended_of_raise {settings : Settings} {c : Check} {s : Server}
    (h : c.step settings s .raise = none) : c.phase = .ended := by
  simp only [step, Option.map_eq_none_iff] at h
  unfold raise at h
  split at h
  case h_2 hphase => exact hphase
  all_goals cases h

theorem service_of_ended {settings : Settings} {t : Process} (h : t.Ended = true) (s : Server)
    (a : Action) : service settings s t a = none := by
  cases t with
  | request r =>
    have hphase : r.phase = .created ∨ r.phase = .refused := of_decide_eq_true h
    simp [service, UploadRequest.step_of_ended hphase]
  | uploadTask t => simp [service, UploadTask.step_of_ended (of_decide_eq_true h)]
  | post p => simp [service, Post.step_of_ended (of_decide_eq_true h)]
  | check c => simp [service, Check.step_of_ended (of_decide_eq_true h)]
  | runTask t => simp [service, RunTask.step_of_hasEnded h]

/-- A process that has not ended may fail at least. -/
theorem ended_of_stuck {settings : Settings} {s : Server} {t : Process}
    (h : ∀ a, a ≠ .proceed → service settings s t a = none) : t.Ended = true := by
  have hraise := h .raise (by simp)
  cases t with
  | request r =>
    refine decide_eq_true (UploadRequest.ended_of_raise (?_ : r.step s.db .raise = none))
    cases hstep : r.step s.db .raise with
    | none => rfl
    | some => simp [service, hstep] at hraise
  | uploadTask t =>
    refine decide_eq_true (UploadTask.ended_of_raise (?_ : t.step settings s.db .raise = none))
    cases hstep : t.step settings s.db .raise with
    | none => rfl
    | some => simp [service, hstep] at hraise
  | post p =>
    refine decide_eq_true (Post.ended_of_raise (?_ : p.step s .raise = none))
    cases hstep : p.step s .raise with
    | none => rfl
    | some => simp [service, hstep] at hraise
  | check c =>
    refine decide_eq_true (Check.ended_of_raise (?_ : c.step settings s .raise = none))
    cases hstep : c.step settings s .raise with
    | none => rfl
    | some => simp [service, hstep] at hraise
  | runTask t =>
    refine RunTask.hasEnded_of_stuck fun a ha => (?_ : t.step s a = none)
    have hservice := h a ha
    cases hstep : t.step s a with
    | none => rfl
    | some => simp [service, hstep] at hservice

end EntityService.Service
