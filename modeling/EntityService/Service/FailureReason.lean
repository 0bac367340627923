import EntityService.Service.Hanging

/-! The texts that tell why runs have failed. A text is written together with the state `error`,
and the last one stays: the error callback of a run writes over the text of the task that has found
too many candidate pairs. -/
namespace EntityService.Service
open Lib Cache

/-- The shared state with the column `error_msg` of the runs. -/
structure ErrorServer extends Server where
  errorMsg : RunId → Option String

def candidateLimitMessage : String :=
  "This run has created more than the global limit of candidate pairs."

/-- The text that a step writes, and the runs of which the statement updates the rows. -/
def writtenErrorMsg : Process → Action → Option (String × List RunId)
  | .check c, .proceed =>
    match c.phase with
    | .updating check [] _ updated => check.valueError.map fun e => (e.message, updated)
    | _ => none
  | .runTask (.chord _ runId _), .header _ .markFailure => some (candidateLimitMessage, [runId])
  | .runTask (.solverTask _ runId .pending), .overLimit =>
    some ("Attempting to solve with more than the global limit of candidate pairs.", [runId])
  | .runTask (.runFailedHandler (some runId) .pending), .proceed =>
    some ("Run failed with an internal server error.", [runId])
  | _, _ => none

/-- The column after a step. An `UPDATE` finds the rows that are there. -/
def ErrorServer.updateErrorMsg (s : ErrorServer) (t : Process) (a : Action) :
    RunId → Option String :=
  match writtenErrorMsg t a with
  | some (message, runIds) => fun runId =>
    if runId ∈ runIds ∧ (s.runs.get? runId).isSome then some message else s.errorMsg runId
  | none => s.errorMsg

/-- The service with the texts that its tasks write. -/
def reporting (settings : Settings) : Program ErrorServer Process Action := fun s t a => do
  let (server, t', started) ← service settings s.toServer t a
  return (⟨server, s.updateErrorMsg t a⟩, t', started)

/-- A step of `compute_filter_similarity` marks the run as failed because of the limit. -/
def RecordsLimit (settings : Settings) (runId : RunId) (p p' : Pool ErrorServer Process) : Prop :=
  ∃ i j projectId headers, p.processes[i]? = some (.runTask (.chord projectId runId headers)) ∧
    p.step (reporting settings) i (.header j .markFailure) = some p'

def LimitExceeded (settings : Settings) (runId : RunId) (p₀ p : Pool ErrorServer Process) : Prop :=
  ∃ p₁ p₂, Pool.Reaches (reporting settings) p₀ p₁ ∧ RecordsLimit settings runId p₁ p₂ ∧
    Pool.Reaches (reporting settings) p₂ p

/-- The step is no update of the run by its error callback, nor one by a check that has found an
encoding size that does not fit. -/
def undisturbed (runId : RunId) (_ : ErrorServer) : Process → Action → Bool
  | .check c, .proceed =>
    match c.phase with
    | .updating check [] _ updated => check.raises = false ∨ runId ∉ updated
    | _ => true
  | .runTask (.runFailedHandler (some r) .pending), .proceed => r ≠ runId
  | _, _ => true

/-- The limit is recorded for the run, and the run is undisturbed from then on. -/
def RecordedLast (settings : Settings) (runId : RunId) (p₀ p : Pool ErrorServer Process) : Prop :=
  ∃ p₁ p₂, Pool.Reaches (reporting settings) p₀ p₁ ∧ RecordsLimit settings runId p₁ p₂ ∧
    Pool.Reaches ((reporting settings).restrict (undisturbed runId)) p₂ p

/-- A run that nothing works on any more is in the state `error` and says that the limit was
exceeded. -/
def ReasonKept (runId : RunId) (p : Pool ErrorServer Process) : Prop :=
  (∀ t ∈ p.processes, Idle runId t) → ∃ row, p.shared.runs.get? runId = some row ∧
    row.state = .error ∧ p.shared.errorMsg runId = some candidateLimitMessage

/-- What is left of a run leads it on or shows that it cannot be completed, not both. -/
structure SinglePath (runId : RunId) (p : Pool Server Process) : Prop where
  one : p.total (leadsTo .queued runId) + p.total (leadsTo .comparing runId) +
    p.total (leadsTo .aggregated runId) + p.total (leadsTo .completed runId) ≤ 1
  created : (∀ row, p.shared.runs.get? runId = some row → row.state = .created) →
    (∀ m, p.total (leadsTo m runId) = 0) ∧ p.total (spoils runId) = 0
  spoiled : 0 < p.total (spoils runId) → ∀ m, p.total (leadsTo m runId) = 0

/-- The failed run is over, and its text is that of the limit. -/
structure Kept (runId : RunId) (p : Pool ErrorServer Process) : Prop where
  failed : ∃ row, p.shared.runs.get? runId = some row ∧ row.state = .error
  message : p.shared.errorMsg runId = some candidateLimitMessage
  leads : ∀ m, Pool.total (leadsTo m runId) p = 0

theorem reporting_eq_some {settings : Settings} {s s' : ErrorServer} {t t' : Process} {a : Action}
    {started : List Process} : reporting settings s t a = some (s', t', started) ↔
      service settings s.toServer t a = some (s'.toServer, t', started) ∧
        s'.errorMsg = s.updateErrorMsg t a := by
  simp only [reporting, Option.bind_eq_bind, Option.bind_eq_some_iff, Option.pure_def]
  constructor
  · rintro ⟨⟨server, u, processes⟩, hservice, he⟩
    cases he
    exact ⟨hservice, rfl⟩
  · rintro ⟨hservice, herror⟩
    refine ⟨_, hservice, ?_⟩
    cases s'
    cases herror
    rfl

theorem Pool.Reaches.of_reporting {settings : Settings} {p p' : Pool ErrorServer Process}
    (h : Pool.Reaches (reporting settings) p p') : Pool.Reaches (service settings)
      ⟨p.shared.toServer, p.processes⟩ ⟨p'.shared.toServer, p'.processes⟩ :=
  h.map_shared ErrorServer.toServer fun _ _ _ _ _ _ hstep => (reporting_eq_some.mp hstep).1

section Path
variable {settings : Settings} {s s' : Server} {t t' : Process} {a : Action}
  {before after started : List Process} {runId : RunId}

/-- A process without tokens of a created run gets none that spoils it. -/
theorem spoils_step (hfound : Found s t) (hstep : ServiceStep settings s t a s' t' started)
    (hleads : ∀ m, leadsTo m runId t = 0) (hspoils : spoils runId t = 0) :
    stepTotal (spoils runId) t' started = 0 := by
  cases tokenStep_of_step hfound hstep runId with
  | keep _ _ hsame | lose _ _ hsame => rw [hsame, hspoils]
  | spoil _ hbefore | fail hbefore =>
    rw [hleads, hleads, hspoils] at hbefore
    cases hbefore
  | post _ _ _ _ _ _ hzero | change _ _ _ _ _ _ hzero | begin _ _ _ hzero
  | aggregate _ _ _ _ hzero | complete _ _ _ hzero => exact hzero

/-- What spoils a run has consumed the only task that led it on, and none will follow. -/
theorem spoiled_step (hfound : Found s t) (hholds : holds runId t ≤ 1)
    (hstep : ServiceStep settings s t a s' t' started)
    (h : SinglePath runId ⟨s, before ++ t :: after⟩)
    (hpos : 0 < Pool.total (spoils runId) ⟨s', before ++ t' :: after ++ started⟩) (m : Milestone) :
    Pool.total (leadsTo m runId) ⟨s', before ++ t' :: after ++ started⟩ = 0 := by
  have hone := h.one
  have hm := total_stepTotal (leadsTo m runId) s s' before after started t t'
  have hspoils := total_stepTotal (spoils runId) s s' before after started t t'
  have hle := fun m => Pool.le_total (p := ⟨s, before ++ t :: after⟩) (f := leadsTo m runId)
    List.mem_append_cons_self
  have hle' := Pool.le_total (p := ⟨s, before ++ t :: after⟩) (f := spoils runId)
    List.mem_append_cons_self
  -- a run that was spoiled before the step has no task that leads it on
  have hleads : 0 < Pool.total (spoils runId) ⟨s, before ++ t :: after⟩ →
      ∀ m, Pool.total (leadsTo m runId) ⟨s, before ++ t :: after⟩ = 0 ∧ leadsTo m runId t = 0 := by
    intro hbefore m
    have hzero := h.spoiled hbefore m
    exact ⟨hzero, Nat.le_zero.mp (hzero ▸ hle m)⟩
  have hconsumed : 0 < leadsTo .comparing runId t + leadsTo .aggregated runId t +
      spoils runId t → stepTotal (leadsTo m runId) t' started = 0 →
        Pool.total (leadsTo m runId) ⟨s', before ++ t' :: after ++ started⟩ = 0 := by
    intro hbefore hafter
    by_cases hspoiled : 0 < Pool.total (spoils runId) ⟨s, before ++ t :: after⟩
    · obtain ⟨hzero, hself⟩ := hleads hspoiled m
      omega
    · have hcomparing := hle .comparing
      have haggregated := hle .aggregated
      have hself := hle m
      cases m <;> omega
  have hkept : stepTotal (spoils runId) t' started ≤ spoils runId t →
      stepTotal (leadsTo m runId) t' started = 0 ∨
        stepTotal (leadsTo m runId) t' started = leadsTo m runId t →
          Pool.total (leadsTo m runId) ⟨s', before ++ t' :: after ++ started⟩ = 0 := by
    intro hspoiled hsame
    obtain ⟨hzero, hself⟩ := hleads (by omega) m
    omega
  cases tokenStep_of_step hfound hstep runId with
  | keep _ hsame hsame' => exact hkept hsame'.le (.inr (hsame m))
  | lose _ hzero hsame' => exact hkept hsame'.le (.inl (hzero m))
  | spoil _ hbefore hafter | fail hbefore _ hafter => exact hconsumed hbefore (hafter m)
  | post _ _ _ _ _ hafter hzero => exact hkept (hzero ▸ Nat.zero_le _) (.inl (hafter m))
  | @change c check held updated ht hphase _ _ _ hafter hzero =>
    subst ht
    refine hkept (hzero ▸ Nat.zero_le _) (.inl ?_)
    rw [hafter]
    split_ifs
    · refine List.count_eq_zero.mpr fun hmem => ?_
      have hcreated := (h.created (driven_change hfound hholds hphase hmem).2.2.2).2
      omega
    · rfl
  | begin hbefore _ _ hzero =>
    have hself := (hleads (by omega) .queued).2
    omega
  | aggregate ht _ _ _ hzero =>
    have hself := (hleads (by omega) .comparing).2
    subst ht
    simp [leadsTo, RunTask.milestone] at hself
  | complete hbefore _ _ hzero =>
    have hself := (hleads (by omega) .aggregated).2
    omega

theorem singlePath_step (hfound : Found s t) (hholds : holds runId t ≤ 1)
    (hstep : ServiceStep settings s t a s' t' started)
    (h : SinglePath runId ⟨s, before ++ t :: after⟩) :
    SinglePath runId ⟨s', before ++ t' :: after ++ started⟩ := by
  refine ⟨one_step hfound hholds hstep h.one fun hcreated => (h.created hcreated).1,
    fun hcreated => ?_, spoiled_step hfound hholds hstep h⟩
  have htoken := tokenStep_of_step hfound hstep runId
  obtain ⟨hleads, hspoils⟩ := h.created (created_of_tokenStep htoken hcreated)
  refine ⟨leadsTo_step hfound hholds hstep hleads hcreated, ?_⟩
  have htotal := total_stepTotal (spoils runId) s s' before after started t t'
  have hself : spoils runId t = 0 :=
    Pool.total_eq_zero.mp hspoils t List.mem_append_cons_self
  have hzero := spoils_step hfound hstep (fun m =>
    Pool.total_eq_zero.mp (hleads m) t List.mem_append_cons_self) hself
  omega

end Path

section Reaches
variable {settings : Settings} {p₀ p : Pool Server Process}

theorem singlePath_of_reaches (hinit : ∀ t ∈ p₀.processes, t.Arriving)
    (h : Pool.Reaches (service settings) p₀ p) (runId : RunId) : SinglePath runId p := by
  refine h.invariant (I := SinglePath runId) ?_ ?_
  · have hleads : ∀ m, p₀.total (leadsTo m runId) = 0 := fun m =>
      total_eq_zero_of_arriving hinit (fun _ _ => rfl) fun _ => rfl
    have hspoils : p₀.total (spoils runId) = 0 :=
      total_eq_zero_of_arriving hinit (fun _ _ => rfl) fun _ => rfl
    exact ⟨by simp [hleads], fun _ => ⟨hleads, hspoils⟩, fun _ => hleads⟩
  · rintro s before t after a s' t' started hreaches hpath hprogram
    have hfound := found_of_reaches (fun t ht => delivered_of_arriving (hinit t ht))
      hreaches t List.mem_append_cons_self
    exact singlePath_step hfound (holds_le_one hinit hreaches List.mem_append_cons_self runId)
      (serviceStep_of_step hprogram) hpath

end Reaches

section Kept
variable {settings : Settings} {runId : RunId} {s s' : ErrorServer} {t t' : Process} {a : Action}
  {before after started : List Process}

inductive WritesErrorMsg : Process → Action → String → List RunId → Prop
  | check {c : Check} {check : SizeCheck} {held updated : List RunId} {e : SizeError}
      (hphase : c.phase = .updating check [] held updated) (herror : check.valueError = some e) :
      WritesErrorMsg (.check c) .proceed e.message updated
  | chord {projectId : ProjectId} {r : RunId} {headers : List HeaderPhase} {i : ℕ} :
      WritesErrorMsg (.runTask (.chord projectId r headers)) (.header i .markFailure)
        candidateLimitMessage [r]
  | solverTask {projectId : ProjectId} {r : RunId} :
      WritesErrorMsg (.runTask (.solverTask projectId r .pending)) .overLimit
        "Attempting to solve with more than the global limit of candidate pairs." [r]
  | runFailedHandler {r : RunId} :
      WritesErrorMsg (.runTask (.runFailedHandler (some r) .pending)) .proceed
        "Run failed with an internal server error." [r]

theorem writesErrorMsg_of_written {message : String} {runIds : List RunId}
    (h : writtenErrorMsg t a = some (message, runIds)) : WritesErrorMsg t a message runIds := by
  unfold writtenErrorMsg at h
  split at h
  case h_1 =>
    split at h
    case h_1 hphase =>
      obtain ⟨e, herror, he⟩ := Option.map_eq_some_iff.mp h
      cases he
      exact .check hphase herror
    case h_2 => cases h
  case h_2 =>
    cases h
    exact .chord
  case h_3 =>
    cases h
    exact .solverTask
  case h_4 =>
    cases h
    exact .runFailedHandler
  case h_5 => cases h

/-- A step keeps the text of a run, or writes one to its row. -/
theorem updateErrorMsg_cases (s : ErrorServer) (t : Process) (a : Action) (runId : RunId) :
    s.updateErrorMsg t a runId = s.errorMsg runId ∧
        (∀ message runIds, writtenErrorMsg t a = some (message, runIds) →
          runId ∈ runIds → s.runs.get? runId = none) ∨
      ∃ message runIds, WritesErrorMsg t a message runIds ∧ runId ∈ runIds ∧
        s.updateErrorMsg t a runId = some message := by
  unfold ErrorServer.updateErrorMsg
  cases hwritten : writtenErrorMsg t a with
  | none => exact .inl ⟨rfl, nofun⟩
  | some r =>
    obtain ⟨message, runIds⟩ := r
    dsimp only
    split_ifs with hrow
    · exact .inr ⟨message, runIds, writesErrorMsg_of_written hwritten, hrow.1, rfl⟩
    · refine .inl ⟨rfl, fun message' runIds' he hmem => ?_⟩
      cases he
      simpa [hmem] using hrow

/-- The text of the limit is kept while nothing leads the run on. -/
theorem errorMsg_step (hok : undisturbed runId s t a = true)
    (hleads : leadsTo .aggregated runId t = 0)
    (hmessage : s.errorMsg runId = some candidateLimitMessage) :
    s.updateErrorMsg t a runId = some candidateLimitMessage := by
  rcases updateErrorMsg_cases s t a runId with ⟨hsame, -⟩ | ⟨message, runIds, hwrites, hmem, hset⟩
  · rw [hsame, hmessage]
  · rw [hset]
    cases hwrites with
    | chord => rfl
    | @check c check held updated e hphase herror =>
      simp [undisturbed, hphase, SizeCheck.raises, herror, hmem] at hok
    | solverTask =>
      rw [List.mem_singleton.mp hmem] at hleads
      simp [leadsTo, RunTask.milestone] at hleads
    | runFailedHandler =>
      rw [List.mem_singleton.mp hmem] at hok
      simp [undisturbed] at hok

theorem failed_step {settings : Settings} {s s' : Server} (hfound : Found s t)
    (hstep : ServiceStep settings s t a s' t' started)
    (hleads : ∀ m, Pool.total (leadsTo m runId) ⟨s, before ++ t :: after⟩ = 0)
    (hfailed : ∃ row, s.runs.get? runId = some row ∧ row.state = .error) :
    (∃ row, s'.runs.get? runId = some row ∧ row.state = .error) ∧
      ∀ m, Pool.total (leadsTo m runId) ⟨s', before ++ t' :: after ++ started⟩ = 0 := by
  obtain ⟨row, hrow, hstate⟩ := hfailed
  have hself : ∀ m, leadsTo m runId t = 0 := fun m =>
    Pool.total_eq_zero.mp (hleads m) t List.mem_append_cons_self
  have hchange : ∀ f : RunRow → RunRow, ChangesRun runId s s' f → (f row).state = .error →
      ∃ row, s'.runs.get? runId = some row ∧ row.state = .error := by
    intro f hf herror
    obtain ⟨row', hrow', halike⟩ := hf.exists hrow
    exact ⟨row', hrow', (unlocked_eq halike).2.1.trans herror⟩
  have htotal : (∀ m, stepTotal (leadsTo m runId) t' started = 0) →
      ∀ m, Pool.total (leadsTo m runId) ⟨s', before ++ t' :: after ++ started⟩ = 0 := by
    intro hzero m
    have hm := total_stepTotal (leadsTo m runId) s s' before after started t t'
    rw [hleads, hself, hzero] at hm
    exact hm
  cases tokenStep_of_step hfound hstep runId with
  | keep hrow' hsame => exact ⟨hchange _ hrow' hstate, htotal fun m => (hsame m).trans (hself m)⟩
  | lose hrow' hzero | spoil hrow' _ hzero => exact ⟨hchange _ hrow' hstate, htotal hzero⟩
  | fail _ hrow' hzero => exact ⟨hchange _ hrow' rfl, htotal hzero⟩
  | post _ _ _ hnone =>
    rw [hrow] at hnone
    cases hnone
  | @change c check held updated ht hphase hheld hupdated hrow' hzero =>
    subst ht
    -- a check that passes updates only runs that are created
    have hraises : check.raises = true := by
      by_contra hraises
      obtain ⟨row', hget, hcreated⟩ :=
        (hfound _ _ _ _ hphase).2 runId hupdated (by simpa using hraises)
      obtain rfl := Option.some.inj (hrow.symm.trans hget)
      rw [hstate] at hcreated
      cases hcreated
    refine ⟨hchange _ hrow' (by simp [Check.change, hraises, markFailure]), htotal fun m => ?_⟩
    rw [hzero, Check.newRuns, if_pos hraises]
    split_ifs <;> rfl
  | begin hbefore | complete hbefore =>
    rw [hself] at hbefore
    cases hbefore
  | aggregate ht =>
    have hcomparing := hself .comparing
    subst ht
    simp [leadsTo, RunTask.milestone] at hcomparing

theorem service_markFailure {settings : Settings} {s s' : Server} {projectId : ProjectId}
    {headers : List HeaderPhase} {j : ℕ} (h : service settings s
      (.runTask (.chord projectId runId headers)) (.header j .markFailure) =
        some (s', t', started)) :
    headers[j]? = some .overLimit ∧ s' = s.modifyRun runId markFailure ∧
      t' = .runTask (.chord projectId runId (headers.set j (.returned false))) := by
  unfold service RunTask.step at h
  simp only [Option.bind_eq_bind, Option.bind_eq_some_iff, Option.pure_def] at h
  obtain ⟨r, ⟨phase, hphase, ⟨s'', phase'⟩, hheader, hr⟩, he⟩ := h
  cases hr
  cases he
  cases phase with
  | overLimit =>
    simp only [HeaderPhase.step, Option.bind_eq_bind, Option.bind_eq_some_iff,
      Option.pure_def] at hheader
    obtain ⟨s'', hupdate, he⟩ := hheader
    cases he
    exact ⟨hphase, (updateRun_eq_some.mp hupdate).2, rfl⟩
  | _ => cases hheader

/-- A task of the chord that records the limit leaves the run failed, and with nothing that leads
it on. -/
theorem kept_of_recordsLimit {p₀ p p' : Pool ErrorServer Process}
    (hinit : ∀ t ∈ p₀.processes, t.Arriving) (h : Pool.Reaches (reporting settings) p₀ p)
    (hrecords : RecordsLimit settings runId p p') : Kept runId p' := by
  obtain ⟨i, j, projectId, headers, hget, hstep⟩ := hrecords
  have hpath := singlePath_of_reaches hinit (Pool.Reaches.of_reporting h) runId
  have hpath' := singlePath_of_reaches hinit (Pool.Reaches.of_reporting (h.step hstep)) runId
  obtain ⟨before, t, after, s', t', started, hlist, rfl, hprogram, rfl⟩ :=
    Pool.step_eq_some.mp hstep
  obtain rfl : t = .runTask (.chord projectId runId headers) := by
    simpa [hlist] using hget
  obtain ⟨hservice, herror⟩ := reporting_eq_some.mp hprogram
  obtain ⟨hphase, hs', rfl⟩ := service_markFailure hservice
  -- the row is there, since the chord shows that the run has been begun
  have hrow : ∃ row, p.shared.runs.get? runId = some row := by
    by_contra hnone
    have hspoils := (hpath.created fun row hrow => absurd ⟨row, hrow⟩ hnone).2
    have hself := Pool.total_eq_zero.mp hspoils (.runTask (.chord projectId runId headers))
      (by simp [hlist])
    have hspoiled : headers.any HeaderPhase.Spoiled = true :=
      List.any_eq_true.mpr ⟨_, List.mem_of_getElem? hphase, rfl⟩
    simp [spoils, hspoiled] at hself
  obtain ⟨row, hrow⟩ := hrow
  refine ⟨⟨markFailure row, ?_, rfl⟩, ?_, hpath'.spoiled (Pool.total_pos.mpr ⟨_,
    List.mem_append_left _ List.mem_append_cons_self, ?_⟩)⟩
  · dsimp only
    rw [hs', get?_modifyRun, if_pos rfl, hrow]
    rfl
  · dsimp only
    rw [herror]
    simp [ErrorServer.updateErrorMsg, writtenErrorMsg, hrow]
  · have hspoiled : (headers.set j (.returned false)).any HeaderPhase.Spoiled = true := by
      have hj := (List.getElem?_eq_some_iff.mp hphase).1
      exact List.any_eq_true.mpr ⟨_, List.mem_set hj _, rfl⟩
    simp [spoils, hspoiled]

theorem kept_of_recordedLast {p₀ p : Pool ErrorServer Process}
    (hinit : ∀ t ∈ p₀.processes, t.Arriving) (h : RecordedLast settings runId p₀ p) :
    Kept runId p := by
  obtain ⟨p₁, p₂, hreaches, hrecords, hundisturbed⟩ := h
  have hreaches₂ : Pool.Reaches (reporting settings) p₀ p₂ := by
    obtain ⟨i, j, -, -, -, hstep⟩ := hrecords
    exact hreaches.step hstep
  refine hundisturbed.invariant (I := Kept runId) (kept_of_recordsLimit hinit hreaches hrecords) ?_
  rintro s before t after a s' t' started hreaches' ⟨hfailed, hmessage, hleads⟩ hprogram
  obtain ⟨hok, hprogram⟩ := Program.restrict_eq_some.mp hprogram
  obtain ⟨hservice, herror⟩ := reporting_eq_some.mp hprogram
  have hfound := found_of_reaches (fun t ht => delivered_of_arriving (hinit t ht))
    (Pool.Reaches.of_reporting (hreaches₂.trans hreaches'.of_restrict)) t
      List.mem_append_cons_self
  obtain ⟨hfailed', hleads'⟩ := failed_step hfound (serviceStep_of_step hservice) hleads hfailed
  refine ⟨hfailed', ?_, hleads'⟩
  dsimp only
  rw [herror]
  exact errorMsg_step hok (Pool.total_eq_zero.mp (hleads .aggregated) t List.mem_append_cons_self)
    hmessage

theorem undisturbed_or_written (s : ErrorServer) (t : Process) (a : Action) (runId : RunId) :
    undisturbed runId s t a = true ∨ ∃ message runIds,
      writtenErrorMsg t a = some (message, runIds) ∧ runId ∈ runIds := by
  unfold undisturbed
  split
  case h_1 c =>
    split
    case h_1 check held updated hphase =>
      cases herror : check.valueError with
      | none => exact .inl (by simp [SizeCheck.raises, herror])
      | some e =>
        by_cases hmem : runId ∈ updated
        · exact .inr ⟨e.message, updated, by simp [writtenErrorMsg, hphase, herror], hmem⟩
        · exact .inl (by simp [hmem])
    case h_2 => exact .inl rfl
  case h_2 r =>
    by_cases hr : r = runId
    · exact .inr ⟨_, _, rfl, List.mem_singleton.mpr hr.symm⟩
    · exact .inl (by simp [hr])
  case h_3 => exact .inl rfl

theorem SizeError.message_ne (e : SizeError) : e.message ≠ candidateLimitMessage := by
  cases e <;> decide

/-- The text of the limit has been recorded by a task, and the run is undisturbed since. -/
theorem recordedLast_of_errorMsg {p₀ p : Pool ErrorServer Process}
    (hinit : ∀ t ∈ p₀.processes, t.Arriving) (herrors : ∀ r, p₀.shared.errorMsg r = none)
    (h : Pool.Reaches (reporting settings) p₀ p)
    (hmessage : p.shared.errorMsg runId = some candidateLimitMessage) :
    RecordedLast settings runId p₀ p := by
  induction h with
  | refl =>
    rw [herrors] at hmessage
    cases hmessage
  | @step p p' i a h hstep ih =>
    obtain ⟨before, t, after, s', t', started, hlist, hi, hprogram, rfl⟩ :=
      Pool.step_eq_some.mp hstep
    have herror := (reporting_eq_some.mp hprogram).2
    dsimp only at hmessage
    rw [herror] at hmessage
    rcases updateErrorMsg_cases p.shared t a runId with ⟨hsame, hnone⟩ |
      ⟨message, runIds, hwrites, hmem, hset⟩
    · rw [hsame] at hmessage
      have hlast := ih hmessage
      obtain ⟨row, hrow, -⟩ := (kept_of_recordedLast hinit hlast).failed
      obtain ⟨p₁, p₂, hreaches, hrecords, hundisturbed⟩ := hlast
      refine ⟨p₁, p₂, hreaches, hrecords, hundisturbed.step (Pool.step_eq_some.mpr ⟨before, t,
        after, s', t', started, hlist, hi, Program.restrict_eq_some.mpr ⟨?_, hprogram⟩, rfl⟩)⟩
      refine (undisturbed_or_written p.shared t a runId).resolve_right ?_
      rintro ⟨message, runIds, hwritten, hmem⟩
      rw [hnone message runIds hwritten hmem] at hrow
      cases hrow
    · rw [hset] at hmessage
      have heq : message = candidateLimitMessage := Option.some.inj hmessage
      cases hwrites with
      | check => exact absurd heq (SizeError.message_ne _)
      | @chord projectId r headers j =>
        obtain rfl := List.mem_singleton.mp hmem
        refine ⟨p, _, h, ⟨i, j, projectId, headers, ?_, hstep⟩, .refl⟩
        rw [hlist, ← hi]
        simp
      | solverTask | runFailedHandler => exact absurd heq (by decide)

/-- The limit stays the reason of a failed run if and only if the run is undisturbed after one of
its tasks has recorded the limit. -/
theorem reasonKept_iff {p₀ p : Pool ErrorServer Process} (hinit : ∀ t ∈ p₀.processes, t.Arriving)
    (herrors : ∀ r, p₀.shared.errorMsg r = none) (h : LimitExceeded settings runId p₀ p) :
    ReasonKept runId p ↔
      ((∀ t ∈ p.processes, Idle runId t) → RecordedLast settings runId p₀ p) := by
  obtain ⟨p₁, p₂, hreaches, ⟨i, j, projectId, headers, hget, hstep⟩, hreaches'⟩ := h
  have hrun := (hreaches.step hstep).trans hreaches'
  refine imp_congr_right fun _ => ⟨?_, fun hlast => ?_⟩
  · rintro ⟨-, -, -, hmessage⟩
    exact recordedLast_of_errorMsg hinit herrors hrun hmessage
  · obtain ⟨⟨row, hrow, hstate⟩, hmessage, -⟩ := kept_of_recordedLast hinit hlast
    exact ⟨row, hrow, hstate, hmessage⟩

end Kept

/-- A run with both its uploads, before any text has been written. -/
def unreported : Pool ErrorServer Process where
  shared := ⟨(runAndUploads "p").shared, fun _ => none⟩
  processes := (runAndUploads "p").processes

/-- The error callback of a task that has failed is executed before another task of the chord
records the limit. -/
theorem reasonKept_failedBefore : ∃ p, LimitExceeded Tasks.defaultSettings "r" unreported p ∧
    (∀ t ∈ p.processes, Idle "r" t) ∧ ReasonKept "r" p := by
  have hrun : (unreported.run (reporting Tasks.defaultSettings)
      (startSchedule ++ [(6, .schedule 2), (7, .header 0 .start), (7, .header 1 .start),
        (7, .header 0 .overLimit), (7, .header 1 .fail), (8, .proceed)])).any fun p₁ =>
          p₁.processes[7]? = some (.runTask (.chord "p" "r" [.overLimit, .failed])) ∧
            (p₁.step (reporting Tasks.defaultSettings) 7 (.header 0 .markFailure)).any fun p =>
              ∀ t ∈ p.processes, Idle "r" t := by
    decide
  obtain ⟨p₁, hp₁, hrecords⟩ := (Option.any_eq_true _ _).mp hrun
  obtain ⟨hchord, hrecords⟩ := of_decide_eq_true hrecords
  obtain ⟨p, hp, hidle⟩ := (Option.any_eq_true _ _).mp hrecords
  have hreaches := Pool.reaches_of_run hp₁
  have hlimit : RecordsLimit Tasks.defaultSettings "r" p₁ p := ⟨7, 0, _, _, hchord, hp⟩
  have hexceeded : LimitExceeded Tasks.defaultSettings "r" unreported p :=
    ⟨p₁, p, hreaches, hlimit, .refl⟩
  exact ⟨p, hexceeded, of_decide_eq_true hidle, (reasonKept_iff (by decide) (fun _ => rfl)
    hexceeded).mpr fun _ => ⟨p₁, p, hreaches, hlimit, .refl⟩⟩

/-- When no other task fails, the body of the chord does, and its error callback writes over the
text. -/
theorem not_reasonKept_overLimit : ∃ p, LimitExceeded Tasks.defaultSettings "r" unreported p ∧
    ¬ ReasonKept "r" p := by
  have hrun : (unreported.run (reporting Tasks.defaultSettings)
      (startSchedule ++ [(6, .schedule 1), (7, .header 0 .start),
        (7, .header 0 .overLimit)])).any fun p₁ =>
          p₁.processes[7]? = some (.runTask (.chord "p" "r" [.overLimit, .celeryBugFix])) ∧
            (p₁.step (reporting Tasks.defaultSettings) 7 (.header 0 .markFailure)).any fun p₂ =>
              (p₂.run (reporting Tasks.defaultSettings)
                [(7, .header 1 .result), (8, .raise), (9, .proceed)]).any fun p =>
                  (∀ t ∈ p.processes, Idle "r" t) ∧
                    p.shared.errorMsg "r" = some "Run failed with an internal server error." := by
    decide
  obtain ⟨p₁, hp₁, hrecords⟩ := (Option.any_eq_true _ _).mp hrun
  obtain ⟨hchord, hrecords⟩ := of_decide_eq_true hrecords
  obtain ⟨p₂, hp₂, hended⟩ := (Option.any_eq_true _ _).mp hrecords
  obtain ⟨p, hp, hquiet⟩ := (Option.any_eq_true _ _).mp hended
  obtain ⟨hidle, hmessage⟩ := of_decide_eq_true hquiet
  refine ⟨p, ⟨p₁, p₂, Pool.reaches_of_run hp₁, ⟨7, 0, _, _, hchord, hp₂⟩,
    Pool.reaches_of_run hp⟩, fun hkept => ?_⟩
  obtain ⟨-, -, -, hlimit⟩ := hkept hidle
  rw [hmessage] at hlimit
  exact absurd (Option.some.inj hlimit) (by decide)

end EntityService.Service
