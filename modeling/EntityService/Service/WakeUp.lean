import EntityService.Service.RunRows
import EntityService.Service.Smooth

/-! Uploads and runs do not wait for each other forever. As long as all uploads are ready and a
run has been created, some process is about to check for executable runs and will find it. -/
namespace EntityService.Service
open Lib

/-- Once nothing is under way and all uploads of a project are ready, its runs are queued. -/
def NoLostWakeUp (projectId : ProjectId) (p : Pool Server Process) : Prop :=
  (∀ t ∈ p.processes, t.Ended) →
  (∀ d ∈ p.shared.db.dataproviders, d.project = projectId → d.uploaded = .done ∧
    ∀ u ∈ p.shared.db.uploads, u.dp = d.id → u.state = .ready) →
  ∀ runId row, p.shared.runs.get? runId = some row → row.project = projectId →
    row.state ≠ .created

def ReadyProvider (db : Database) (dpId : DpId) : Prop :=
  db.uploadedState dpId = some .done ∧ ∃ u ∈ db.uploadsOf dpId, u.state = .ready

def AllReady (db : Database) (projectId : ProjectId) : Prop :=
  ∀ dpId, (dpId, projectId) ∈ db.providerKeys → ReadyProvider db dpId

section Provider
variable {db db' : Database} {dpId d : DpId}

theorem ReadyProvider.of_changesUploads (hchanges : db.ChangesUploads d db')
    (hready : ∀ u ∈ db'.uploadsOf d, u.state = .ready → ∃ v ∈ db.uploadsOf d, v.state = .ready)
    (h : ReadyProvider db' dpId) : ReadyProvider db dpId := by
  refine ⟨(uploadedState_congr hchanges.dataproviders dpId).symm.trans h.1, ?_⟩
  obtain ⟨u, hu, hstate⟩ := h.2
  by_cases hd : dpId = d
  · subst hd
    exact hready u hu hstate
  · exact ⟨u, hchanges.other dpId hd ▸ hu, hstate⟩

theorem ReadyProvider.of_ne (hchanges : db.ChangesUploads d db') (hd : dpId ≠ d)
    (h : ReadyProvider db' dpId) : ReadyProvider db dpId :=
  ⟨(uploadedState_congr hchanges.dataproviders dpId).symm.trans h.1,
    hchanges.other dpId hd ▸ h.2⟩

theorem ReadyProvider.congr (hproviders : db'.dataproviders = db.dataproviders)
    (huploads : db'.uploads = db.uploads) (h : ReadyProvider db' dpId) :
    ReadyProvider db dpId := by
  refine ⟨(uploadedState_congr hproviders dpId).symm.trans h.1, ?_⟩
  simpa only [Database.uploadsOf, huploads] using h.2

theorem ReadyProvider.of_added (hchanges : db.ChangesUploads d db') {row : UploadRow}
    {f : UploadRow → UploadRow} (hf : ∀ v, (f v).state = v.state) (hrow : row.state = .pending)
    (huploads : db'.uploadsOf d = (db.uploadsOf d ++ [row]).map f) (h : ReadyProvider db' dpId) :
    ReadyProvider db dpId := by
  refine h.of_changesUploads hchanges fun u hu hready => ?_
  rw [huploads] at hu
  obtain ⟨v, hv, rfl⟩ := List.mem_map.mp hu
  rw [hf] at hready
  rcases List.mem_append.mp hv with hv | hv
  · exact ⟨v, hv, hready⟩
  · rw [List.mem_singleton.mp hv, hrow] at hready
    cases hready

theorem ReadyProvider.of_invalidateUpload (hok : db.invalidateUpload d = .ok db')
    (h : ReadyProvider db' dpId) : ReadyProvider db dpId := by
  obtain ⟨hchanges, huploads⟩ := Database.changesUploads_invalidateUpload hok
  refine h.of_changesUploads hchanges fun u hu hready => ?_
  rw [huploads] at hu
  obtain ⟨v, -, rfl⟩ := List.mem_map.mp hu
  cases hready

end Provider

theorem clksUploadedToProject_of_allReady {db : Database} {projectId : ProjectId}
    (hsingle : db.SingleUploads) (hcomplete : db.Complete projectId)
    (hkeys : db.UniqueProviders) (h : AllReady db projectId) (checkDataReady : Bool) :
    db.clksUploadedToProject projectId checkDataReady = .ok true := by
  rw [Database.clksUploadedToProject_iff (hsingle.of_project projectId) hcomplete]
  intro d hd
  obtain ⟨hmem, hproject⟩ := List.mem_filter.mp hd
  obtain ⟨hdone, u, hu, hready⟩ := h d.id
    (Database.mem_providerKeys.mpr ⟨d, hmem, rfl, of_decide_eq_true hproject⟩)
  rw [Database.uploadedState_of_mem hkeys hmem, Option.some.injEq] at hdone
  exact ⟨hdone, u, hu, fun _ => hready⟩

/-- The process is about to check for executable runs of the project and will find the run. -/
def Wakes (projectId : ProjectId) (runId : RunId) : Process → Prop
  | .request r => r.upload.projectId = projectId ∧ (r.phase = .done ∨ r.phase = .allUploaded)
  | .uploadTask t => t.upload.projectId = projectId ∧
    t.phase ∈ [.rawReady, .allReady, .pulled, .allUploaded]
  | .post p => p.projectId = projectId ∧ p.phase = .committed ()
  | .check c => c.projectId = projectId ∧
    match c.phase with
    | .pending | .ready | .sized _ _ => True
    | .updating _ todo _ updated => runId ∈ todo ∨ runId ∈ updated
    | _ => False
  | .runTask _ => False

section Step
variable {settings : Settings} {s s' : Server} {t t' : Process} {a : Action}
  {started : List Process}

/-- A row that is there after a step was there before it, or a request has just posted it. The
state `created` is never entered again. -/
theorem run_step (hstep : ServiceStep settings s t a s' t' started) {runId : RunId} {row' : RunRow}
    (hrow' : s'.runs.get? runId = some row') :
    (∃ row, s.runs.get? runId = some row ∧ row'.project = row.project ∧
      (row'.state = .created → row.state = .created)) ∨
    ∃ p, t = .post p ∧ p.runId = runId ∧ p.projectId = row'.project ∧
      t' = .post { p with phase := .committed () } := by
  have hrows := rowStep_of_step hstep runId
  rw [hrow'] at hrows
  generalize s.runs.get? runId = before at hrows ⊢
  cases hrows with
  | same => exact .inl ⟨row', rfl, rfl, id⟩
  | post ht ht' hid => exact .inr ⟨_, ht, hid, rfl, ht'⟩
  | lock | release | progress => exact .inl ⟨_, rfl, rfl, id⟩
  | begin | complete | fail => exact .inl ⟨_, rfl, rfl, nofun⟩
  | @change c check held updated row =>
    refine .inl ⟨row, rfl, ?_⟩
    unfold Check.change
    split_ifs
    · exact ⟨rfl, nofun⟩
    · exact ⟨rfl, nofun⟩

theorem ready_requestStep {r : UploadRequest} {db db' : Database} {phase : RequestPhase}
    {schedules : List Schedule} (hproper : ∀ problem, r.phase ≠ .raised problem)
    (h : RequestStep db r a db' phase schedules) {dpId : DpId}
    (hbefore : ¬ ReadyProvider db dpId) (hafter : ReadyProvider db' dpId) :
    r.upload.dpId = dpId ∧
      (phase = .done ∨ r.phase = .inserted ∧ db'.dataproviders = db.dataproviders) := by
  by_cases hdp : dpId = r.upload.dpId
  · subst hdp
    refine ⟨rfl, ?_⟩
    cases h with
    | lock =>
      have hdone := hafter.1
      rw [Database.uploadedState_lock, if_pos rfl] at hdone
      obtain ⟨state, hstate, hif⟩ := Option.map_eq_some_iff.mp hdone
      split_ifs at hif
      subst hif
      refine absurd ⟨hstate, ?_⟩ hbefore
      rw [Database.lock_eq] at hafter
      exact hafter.2
    | insert _ hok =>
      obtain ⟨hchanges, row, f, hf, hpending, huploads⟩ := UploadRequest.insertOwnMetadata_ok hok
      exact absurd (hafter.of_added hchanges hf hpending huploads) hbefore
    | store h hok => exact .inr ⟨h, (Upload.setReady_ok hok).1.dataproviders⟩
    | setDone => exact .inl rfl
    | reset h => exact absurd h (hproper _)
    | _ => exact absurd hafter hbefore
  · exact absurd ⟨(uploadedState_requestStep h hdp).symm.trans hafter.1,
      uploadsOf_requestStep h hdp ▸ hafter.2⟩ hbefore

theorem ready_uploadTaskStep {u : UploadTask} {db db' : Database} {phase : UploadTaskPhase}
    {schedules : List Schedule} (hproper : u.phase ≠ .handleUploadError)
    (h : UploadTaskStep settings db u a db' phase schedules) {dpId : DpId}
    (hbefore : ¬ ReadyProvider db dpId) (hafter : ReadyProvider db' dpId) :
    u.upload.dpId = dpId ∧ (phase = .rawReady ∨ phase = .pulled) := by
  have hown : ∀ {d}, db.ChangesUploads d db' → d = dpId := by
    intro d hchanges
    by_contra hd
    exact hbefore (hafter.of_ne hchanges (Ne.symm hd))
  cases h with
  | invalidate _ hok => exact absurd (hafter.of_invalidateUpload hok) hbefore
  | setReady h hok =>
    refine ⟨hown (Upload.setReady_ok hok).1, ?_⟩
    cases hphase : u.phase <;> rw [hphase] at h <;> cases h
    · exact .inl rfl
    · exact .inr rfl
  | insertReady _ hok => exact ⟨hown (Upload.insertReady_ok hok).1, .inr rfl⟩
  | insertMetadata _ hok =>
    obtain ⟨hchanges, huploads⟩ := Upload.insertSizedMetadata_ok hok
    refine absurd (hafter.of_added hchanges ?_ ?_ huploads) hbefore
    · exact fun _ => rfl
    · rfl
  | recordError h => exact absurd h hproper
  | _ => exact absurd hafter hbefore

/-- A provider becomes ready when its request sets the state `done`, or when a task or its request
sets the state `ready`. -/
theorem ready_step (hproper : Proper s t) (hstep : ServiceStep settings s t a s' t' started)
    {dpId : DpId} (hbefore : ¬ ReadyProvider s.db dpId) (hafter : ReadyProvider s'.db dpId) :
    (∃ r, t = .request r ∧ r.upload.dpId = dpId ∧ (t' = .request { r with phase := .done } ∨
      r.phase = .inserted ∧ s'.db.dataproviders = s.db.dataproviders)) ∨
    ∃ u phase, t = .uploadTask u ∧ u.upload.dpId = dpId ∧
      t' = .uploadTask { u with phase := phase } ∧ (phase = .rawReady ∨ phase = .pulled) := by
  cases hstep with
  | request h =>
    obtain ⟨hdp, hphase⟩ := ready_requestStep hproper h hbefore hafter
    refine .inl ⟨_, rfl, hdp, hphase.imp_left fun hdone => ?_⟩
    rw [hdone]
  | uploadTask h =>
    obtain ⟨hdp, hphase⟩ := ready_uploadTaskStep hproper.1 h hbefore hafter
    exact .inr ⟨_, _, rfl, hdp, rfl, hphase⟩
  | post h =>
    rw [db_postStep h] at hafter
    exact absurd hafter hbefore
  | check h =>
    cases h with
    | invalidate _ hok => exact absurd (hafter.of_invalidateUpload hok) hbefore
    | commit =>
      exact absurd (hafter.congr (dataproviders_commit _ _ _ _ _) (uploads_commit _ _ _ _ _))
        hbefore
    | _ => exact absurd hafter hbefore
  | runTask h =>
    rw [db_runTaskStep h] at hafter
    exact absurd hafter hbefore

/-- A check that is about to find a run goes on to it, or has put it in the queue. -/
theorem wakes_checkStep {c : Check} {phase : CheckPhase} {newRun : Option RunId}
    (huploaded : ∀ {uploaded : Bool}, s.db.clksUploadedToProject c.projectId true =
      .ok uploaded → uploaded = true)
    (hraise : a ≠ .raise) (hproper : Proper s (.check c))
    (h : CheckStep settings c s a s' phase newRun) {runId : RunId} {row row' : RunRow}
    (hrow : s.runs.get? runId = some row) (hproject : row.project = c.projectId)
    (hcreated : row.state = .created) (hrow' : s'.runs.get? runId = some row')
    (hcreated' : row'.state = .created) (hwakes : Wakes c.projectId runId (.check c)) :
    Wakes c.projectId runId (.check { c with phase := phase }) := by
  obtain ⟨-, hphase⟩ := hwakes
  refine ⟨rfl, ?_⟩
  cases h with
  | testReady h hok =>
    obtain rfl := huploaded hok
    trivial
  | checkSizes | invalidate => trivial
  | beginUpdate =>
    refine .inl (mem_findRuns.mpr ⟨row, hrow, hproject, ?_⟩)
    simp [Check.wanted, hcreated]
  | skipRun h hnone =>
    rw [h] at hphase
    rcases hphase with hmem | hmem
    · rcases List.mem_cons.mp hmem with rfl | hmem
      · rw [hrow] at hnone
        cases hnone
      · exact .inl hmem
    · exact .inr hmem
  | lockRun h hlocked =>
    rw [h] at hphase
    rcases hphase with hmem | hmem
    · rcases List.mem_cons.mp hmem with rfl | hmem
      · obtain rfl := Option.some.inj (hrow.symm.trans hlocked)
        right
        rw [if_pos (by simp [Check.wanted, hcreated])]
        exact List.mem_cons_self
      · exact .inl hmem
    · right
      split_ifs
      · exact List.mem_cons_of_mem _ hmem
      · exact hmem
  | @commit check held updated h =>
    -- the run has been updated, so it is no longer created
    rw [h] at hphase
    have hupdated : runId ∈ updated := hphase.resolve_left (List.not_mem_nil)
    have hheld : runId ∈ held := hproper _ _ _ _ h hupdated
    rw [runs_commit, get?_release, if_pos hheld, hrow, Option.map_some, if_pos hupdated] at hrow'
    cases hrow'
    unfold Check.change at hcreated'
    split_ifs at hcreated' <;> cases hcreated'
  | schedule h | finish h =>
    rw [h] at hphase
    exact hphase.elim
  | rollback | fail => exact absurd rfl hraise

/-- A process that is about to find a run still is after a step, or another one is. -/
theorem wakes_step {projectId : ProjectId} (hsingle : s.db.SingleUploads)
    (hcomplete : s.db.Complete projectId) (hkeys : s.db.UniqueProviders)
    (hready : AllReady s.db projectId) (hsmooth : smooth s t a) (hproper : Proper s t)
    (hstep : ServiceStep settings s t a s' t' started) {runId : RunId} {row row' : RunRow}
    (hrow : s.runs.get? runId = some row) (hproject : row.project = projectId)
    (hcreated : row.state = .created) (hrow' : s'.runs.get? runId = some row')
    (hcreated' : row'.state = .created) (hwakes : Wakes projectId runId t) :
    ∃ u ∈ t' :: started, Wakes projectId runId u := by
  obtain ⟨hraise, hproblem, -⟩ : a ≠ .raise ∧ a ≠ .problem ∧ ownProject s t = true := by
    simpa [smooth] using hsmooth
  have huploaded : ∀ {checkDataReady uploaded : Bool}, s.db.clksUploadedToProject projectId
      checkDataReady = .ok uploaded → uploaded = true := by
    intro checkDataReady uploaded hok
    rw [clksUploadedToProject_of_allReady hsingle hcomplete hkeys hready] at hok
    exact (Except.ok.inj hok).symm
  cases hstep with
  | @request r a db phase schedules h =>
    obtain ⟨rfl, hphase⟩ := hwakes
    cases h with
    | check h hok =>
      obtain rfl := huploaded hok
      exact ⟨_, List.mem_cons_self, rfl, .inr rfl⟩
    | notify => exact ⟨_, List.mem_cons_of_mem _ (List.mem_singleton_self _), rfl, trivial⟩
    | fail ha | abort ha => exact absurd ha (not_or.mpr ⟨hraise, hproblem⟩)
    | _ h => rw [h] at hphase; rcases hphase with hphase | hphase <;> cases hphase
  | @uploadTask u a db phase schedules h =>
    obtain ⟨rfl, hphase⟩ := hwakes
    cases h with
    | checkReady h hok | checkUploaded h hok =>
      obtain rfl := huploaded hok
      exact ⟨_, List.mem_cons_self, rfl, by simp⟩
    | notify => exact ⟨_, List.mem_cons_of_mem _ (List.mem_singleton_self _), rfl, trivial⟩
    | fail => exact absurd rfl hraise
    | setReady h =>
      cases hp : u.phase with
      | sizeChecked | metadataInserted => simp [hp] at hphase
      | _ =>
        rw [hp] at h
        cases h
    | _ h => simp [h] at hphase
  | @post p a s' phase checks h =>
    obtain ⟨rfl, hphase⟩ := hwakes
    cases h with
    | insert h =>
      rw [h] at hphase
      cases hphase
    | notify => exact ⟨_, List.mem_cons_of_mem _ (List.mem_singleton_self _), rfl, trivial⟩
    | fail => exact absurd rfl hraise
  | check h =>
    obtain rfl := hwakes.1
    exact ⟨_, List.mem_cons_self, wakes_checkStep huploaded hraise hproper h hrow hproject hcreated
      hrow' hcreated' hwakes⟩
  | runTask => exact hwakes.elim

end Step

/-- Some process will find each run that has been created once all uploads are ready. -/
def Awake (projectId : ProjectId) (p : Pool Server Process) : Prop :=
  AllReady p.shared.db projectId → ∀ runId row, p.shared.runs.get? runId = some row →
    row.project = projectId → row.state = .created → ∃ t ∈ p.processes, Wakes projectId runId t

section Reaches
variable {settings : Settings} {p₀ p : Pool Server Process} {projectId : ProjectId}

theorem unique_project {db : Database} (hkeys : db.UniqueProviders) {dpId : DpId}
    {q q' : ProjectId} (h : (dpId, q) ∈ db.providerKeys) (h' : (dpId, q') ∈ db.providerKeys) :
    q = q' := by
  obtain ⟨d, hd, rfl, rfl⟩ := Database.mem_providerKeys.mp h
  obtain ⟨d', hd', hid, rfl⟩ := Database.mem_providerKeys.mp h'
  rw [List.inj_on_of_nodup_map hkeys hd hd' hid.symm]

theorem awake_of_reaches (hkeys : p₀.shared.db.UniqueProviders)
    (hinit : ∀ t ∈ p₀.processes, t.Arriving) (hfresh : p₀.shared.Fresh)
    (hcomplete : p₀.shared.db.Complete projectId)
    (h : Pool.Reaches ((service settings).restrict smooth) p₀ p) : Awake projectId p := by
  refine h.invariant (I := Awake projectId) ?_ ?_
  · intro hready runId row hrow
    rw [Dict.get?_eq_some, hfresh.runs] at hrow
    cases hrow
  · rintro s before t after a s' t' started hreaches hawake hprogram hready' runId row' hrow'
      hproject' hcreated'
    obtain ⟨hsmooth, hprogram⟩ := Program.restrict_eq_some.mp hprogram
    have hstep := serviceStep_of_step hprogram
    have hproper := proper_of_reaches hinit hreaches t List.mem_append_cons_self
    have hkeys := uniqueProviders_of_reaches hkeys hreaches.of_restrict
    have hself : ∀ u ∈ t' :: started, u ∈ before ++ t' :: after ++ started := by
      intro u hu
      rcases List.mem_cons.mp hu with rfl | hu
      · simp
      · exact List.mem_append_right _ hu
    rcases run_step hstep hrow' with ⟨row, hrow, hproject, hcreated⟩ | ⟨p, rfl, rfl, hp, rfl⟩
    · have hcreated := hcreated hcreated'
      by_cases hready : AllReady s.db projectId
      · obtain ⟨u, hu, hwakes⟩ := hawake hready runId row hrow (hproject ▸ hproject') hcreated
        by_cases hut : u = t
        · subst hut
          have hsingle := singleUploads_of_smooth ‹_› hinit hfresh hreaches
          obtain ⟨v, hv, hwakes⟩ := wakes_step hsingle (complete_of_reaches hcomplete
            hreaches.of_restrict) hkeys hready hsmooth hproper hstep hrow (hproject ▸ hproject')
            hcreated hrow' hcreated' hwakes
          exact ⟨v, hself v hv, hwakes⟩
        · refine ⟨u, ?_, hwakes⟩
          simp only [List.mem_append, List.mem_cons, hut, false_or] at hu
          rcases hu with hu | hu <;> simp [hu]
      · -- the last upload has just become ready
        obtain ⟨dpId, hdp, hbefore⟩ : ∃ dpId, (dpId, projectId) ∈ s.db.providerKeys ∧
            ¬ ReadyProvider s.db dpId := by
          unfold AllReady at hready
          push Not at hready
          exact hready
        have hafter := hready' dpId (providerKeys_step hstep ▸ hdp)
        refine ⟨t', hself t' List.mem_cons_self, ?_⟩
        rcases ready_step hproper hstep hbefore hafter with
          ⟨r, rfl, rfl, rfl | ⟨hinserted, hproviders⟩⟩ | ⟨u, phase, rfl, rfl, rfl, hphase⟩
        · have hown : (r.upload.dpId, r.upload.projectId) ∈ s.db.providerKeys := by
            have hown : ownProject s (.request r) = true := by
              simp only [smooth, decide_eq_true_eq] at hsmooth
              exact hsmooth.2.2
            simpa [ownProject] using hown
          exact ⟨unique_project hkeys hown hdp, .inl rfl⟩
        · -- the request still holds its slot
          have htracked := slotTracked_of_reaches ‹_› hinit hreaches.of_restrict r.upload.dpId
          have hone : 0 < requestsIn RequestPhase.Holding r.upload.dpId (.request r) := by
            simp [requestsIn, hinserted, RequestPhase.Holding]
          have hprogress := htracked.inProgress
            (Pool.total_pos.mpr ⟨_, List.mem_append_cons_self, hone⟩)
          have hdone := hafter.1
          rw [uploadedState_congr hproviders, hprogress] at hdone
          cases hdone
        · refine ⟨unique_project hkeys hproper.2 hdp, ?_⟩
          rcases hphase with rfl | rfl <;> simp
    · exact ⟨_, hself _ List.mem_cons_self, hp.trans hproject', rfl⟩

theorem not_wakes_of_ended {runId : RunId} {t : Process} (h : t.Ended) :
    ¬ Wakes projectId runId t := by
  cases t with
  | request r =>
    rintro ⟨-, hphase⟩
    rcases hphase with hphase | hphase <;> simp [Process.Ended, hphase] at h
  | uploadTask t =>
    rintro ⟨-, hphase⟩
    have hended : t.phase = .ended := by simpa [Process.Ended] using h
    simp [hended] at hphase
  | post p =>
    rintro ⟨-, hphase⟩
    simp [Process.Ended, hphase] at h
  | check c =>
    rintro ⟨-, hphase⟩
    have hended : c.phase = .ended := by simpa [Process.Ended] using h
    rw [hended] at hphase
    exact hphase
  | runTask => exact id

/-- If no step fails and every upload is sent to the project of its provider, no run is left
behind. -/
theorem noLostWakeUp_of_smooth (hkeys : p₀.shared.db.UniqueProviders)
    (hinit : ∀ t ∈ p₀.processes, t.Arriving) (hfresh : p₀.shared.Fresh)
    (hcomplete : p₀.shared.db.Complete projectId)
    (h : Pool.Reaches ((service settings).restrict smooth) p₀ p) : NoLostWakeUp projectId p := by
  intro hended hdone runId row hrow hproject hcreated
  have hkeys' := uniqueProviders_of_reaches hkeys h.of_restrict
  have hready : AllReady p.shared.db projectId := by
    intro dpId hmem
    obtain ⟨d, hd, rfl, hd'⟩ := Database.mem_providerKeys.mp hmem
    obtain ⟨hstate, huploads⟩ := hdone d hd hd'
    have hstate : p.shared.db.uploadedState d.id = some .done := by
      rw [Database.uploadedState_of_mem hkeys' hd, hstate]
    -- nothing is owed to the provider, so its upload has been inserted
    have howes : p.total (owesUpload d.id) = 0 := by
      refine Pool.total_eq_zero.mpr fun t ht => ?_
      have hend := hended t ht
      cases t with
      | request r =>
        have hphase : r.phase ≠ .locked := by
          intro hphase
          simp [Process.Ended, hphase] at hend
        simp [owesUpload, hphase]
      | uploadTask t =>
        have hphase : t.phase = .ended := by simpa [Process.Ended] using hend
        simp [owesUpload, hphase]
      | _ => rfl
    have haccounted := accounted_of_reaches hkeys hinit hfresh h d.id
    unfold Accounted at haccounted
    rw [if_pos (.inr hstate), howes, Nat.add_zero] at haccounted
    obtain ⟨u, hu⟩ := List.length_eq_one_iff.mp haccounted
    have hmem : u ∈ p.shared.db.uploadsOf d.id := hu ▸ List.mem_singleton_self u
    obtain ⟨humem, hdp⟩ := Database.mem_uploadsOf.mp hmem
    exact ⟨hstate, u, hmem, huploads u humem hdp⟩
  obtain ⟨t, ht, hwakes⟩ := awake_of_reaches hkeys hinit hfresh hcomplete h hready runId row hrow
    hproject hcreated
  exact not_wakes_of_ended (hended t ht) hwakes

end Reaches

/-- A run of the first project, and an upload of either of its data providers, of which the second
is sent to a project. -/
def runAndUploads (projectId : ProjectId) : Pool Server Process where
  shared := newServer
  processes := [.post ⟨"p", "r", .pending⟩,
    .request ⟨smallUpload "p" 1 "x", .binaryclks, .received⟩,
    .request ⟨smallUpload projectId 2 "y", .binaryclks, .received⟩]

theorem fresh_newServer : newServer.Fresh := ⟨rfl, by decide, rfl, rfl⟩

/-- The posted run, then both uploads up to the answer of the second. -/
def uploadSchedule : List (ℕ × Action) :=
  [(0, .proceed), (0, .proceed), (3, .proceed)] ++ List.replicate 6 (1, .proceed) ++
    List.replicate 6 (2, .proceed)

/-- The check that the second upload schedules, and the run up to its completion. -/
def runSchedule : List (ℕ × Action) :=
  (2, .proceed) :: List.replicate 7 (4, .proceed) ++ List.replicate 5 (5, .proceed) ++
    [(6, .schedule 1), (7, .header 0 .start), (7, .header 0 .result), (7, .header 1 .result),
      (8, .proceed), (8, .proceed), (9, .proceed), (10, .proceed), (10, .proceed), (11, .proceed),
      (11, .proceed)]

theorem noLostWakeUp_runAndUploads : ∃ p,
    Pool.Reaches ((service Tasks.defaultSettings).restrict smooth) (runAndUploads "p") p ∧
      (∀ t ∈ p.processes, t.Ended) ∧ (∀ d ∈ p.shared.db.dataproviders, d.project = "p" →
        d.uploaded = .done ∧ ∀ u ∈ p.shared.db.uploads, u.dp = d.id → u.state = .ready) ∧
      NoLostWakeUp "p" p := by
  have hrun : ((runAndUploads "p").run ((service Tasks.defaultSettings).restrict smooth)
      (uploadSchedule ++ runSchedule)).any fun p => (∀ t ∈ p.processes, t.Ended) ∧
        ∀ d ∈ p.shared.db.dataproviders, d.project = "p" →
          d.uploaded = .done ∧ ∀ u ∈ p.shared.db.uploads, u.dp = d.id → u.state = .ready := by
    decide
  obtain ⟨p, hp, hquiet⟩ := (Option.any_eq_true _ _).mp hrun
  obtain ⟨hended, hdone⟩ := of_decide_eq_true hquiet
  have hreaches := Pool.reaches_of_run hp
  exact ⟨p, hreaches, hended, hdone, noLostWakeUp_of_smooth (by decide) (by decide)
    fresh_newServer complete_newServer hreaches⟩

/-- When the second upload is sent to another project, both requests check the wrong project or
too early, and the run is left behind. -/
theorem not_noLostWakeUp_otherProject : ∃ p,
    Pool.Reaches (service Tasks.defaultSettings) (runAndUploads "q") p ∧
      ¬ NoLostWakeUp "p" p := by
  have hrun : ((runAndUploads "q").run (service Tasks.defaultSettings) uploadSchedule).any
      fun p => (∀ t ∈ p.processes, t.Ended) ∧
        (∀ d ∈ p.shared.db.dataproviders, d.project = "p" →
          d.uploaded = .done ∧ ∀ u ∈ p.shared.db.uploads, u.dp = d.id → u.state = .ready) ∧
        p.shared.runs.get? "r" = some ⟨"p", .created, 1, .default, false⟩ := by
    decide
  obtain ⟨p, hp, hquiet⟩ := (Option.any_eq_true _ _).mp hrun
  obtain ⟨hended, hdone, hrow⟩ := of_decide_eq_true hquiet
  exact ⟨p, Pool.reaches_of_run hp, fun h => h hended hdone "r" _ hrow rfl rfl⟩

end EntityService.Service
