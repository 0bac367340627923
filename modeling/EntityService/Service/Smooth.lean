import EntityService.Service.Readiness

/-! A service in which nothing fails and every request is sent to the project of its data
provider. Each provider has one upload, or a process that will insert it, once its slot is taken. -/
namespace EntityService.Service
open Lib

/-- The request is sent to the project of its data provider. -/
def ownProject (s : Server) : Process → Bool
  | .request r => (r.upload.dpId, r.upload.projectId) ∈ s.db.providerKeys
  | _ => true

/-- A step that raises no exception, of a request for the project of its data provider. -/
def smooth (s : Server) (t : Process) (a : Action) : Bool :=
  a ≠ .raise ∧ a ≠ .problem ∧ ownProject s t

/-- A service before the first upload and the first run. -/
structure Server.Fresh (s : Server) : Prop where
  uploads : s.db.uploads = []
  notStarted : ∀ d ∈ s.db.dataproviders, d.uploaded = .notStarted
  runs : s.runs.entries = []
  cache : s.cache.entries = []

def owesUpload (dpId : DpId) : Process → ℕ
  | .request r => if r.upload.dpId = dpId ∧ r.phase = .locked then 1 else 0
  | .uploadTask t =>
    match t.phase with
    | .pullExternalData _ => if t.upload.dpId = dpId then 1 else 0
    | _ => 0
  | _ => 0

/-- What holds of the processes of a service in which nothing has failed. -/
def Proper (s : Server) : Process → Prop
  | .request r => ∀ problem, r.phase ≠ .raised problem
  | .uploadTask t =>
    t.phase ≠ .handleUploadError ∧ (t.upload.dpId, t.upload.projectId) ∈ s.db.providerKeys
  | .check c => ∀ check todo held updated,
      c.phase = .updating check todo held updated → updated ⊆ held
  | _ => True

section Step
variable {settings : Settings} {s s' : Server} {t t' : Process} {a : Action}
  {started : List Process}

theorem Proper.congr (h : s'.db.providerKeys = s.db.providerKeys) {t : Process}
    (ht : Proper s t) : Proper s' t := by
  cases t with
  | uploadTask t => exact ⟨ht.1, h ▸ ht.2⟩
  | _ => exact ht

theorem proper_step (hsmooth : smooth s t a) (hproper : Proper s t)
    (hstep : ServiceStep settings s t a s' t' started) :
    Proper s' t' ∧ ∀ u ∈ started, Proper s' u := by
  have hkeys := providerKeys_step hstep
  obtain ⟨hraise, hproblem, hown⟩ : a ≠ .raise ∧ a ≠ .problem ∧ ownProject s t = true := by
    simpa [smooth] using hsmooth
  cases hstep with
  | @request r a db phase schedules h =>
    have hmem : (r.upload.dpId, r.upload.projectId) ∈ db.providerKeys := by
      rw [show db.providerKeys = s.db.providerKeys from hkeys]
      simpa [ownProject] using hown
    cases h with
    | delegate | delegateRaw =>
      refine ⟨fun problem => by simp, fun u hu => ?_⟩
      obtain rfl := List.mem_singleton.mp hu
      exact ⟨by simp, hmem⟩
    | notify =>
      refine ⟨fun problem => by simp, fun u hu => ?_⟩
      obtain rfl := List.mem_singleton.mp hu
      exact fun _ _ _ _ hphase => by cases hphase
    | fail ha | abort ha => exact absurd ha (not_or.mpr ⟨hraise, hproblem⟩)
    | check =>
      refine ⟨fun problem => ?_, by simp⟩
      dsimp only
      split_ifs <;> simp
    | _ => exact ⟨fun problem => by simp, by simp⟩
  | @uploadTask t a db phase schedules h =>
    have hmem : (t.upload.dpId, t.upload.projectId) ∈ db.providerKeys := by
      rw [show db.providerKeys = s.db.providerKeys from hkeys]
      exact hproper.2
    cases h with
    | notify =>
      refine ⟨⟨by simp, hmem⟩, fun u hu => ?_⟩
      obtain rfl := List.mem_singleton.mp hu
      exact fun _ _ _ _ hphase => by cases hphase
    | checkReady | checkUploaded =>
      refine ⟨⟨?_, hmem⟩, by simp⟩
      dsimp only
      split_ifs <;> simp
    | checkSize _ hphase =>
      rcases hphase with rfl | rfl
      all_goals
        exact ⟨⟨by simp, hmem⟩, by simp⟩
    | setReady h =>
      refine ⟨⟨?_, hmem⟩, by simp⟩
      rintro rfl
      cases hphase : t.phase <;> rw [hphase] at h <;> cases h
    | fail => exact absurd rfl hraise
    | _ => exact ⟨⟨by simp, hmem⟩, by simp⟩
  | post h =>
    refine ⟨trivial, fun u hu => ?_⟩
    split_ifs at hu with hchecks
    · obtain rfl := List.mem_singleton.mp hu
      exact fun _ _ _ _ hphase => by cases hphase
    · cases hu
  | check h =>
    constructor
    · intro check todo held updated hphase
      dsimp only at hphase
      cases h with
      | beginUpdate =>
        cases hphase
        exact fun _ hr => hr
      | skipRun h =>
        cases hphase
        exact hproper _ _ _ _ h
      | lockRun h =>
        cases hphase
        have hsub := hproper _ _ _ _ h
        split_ifs
        · exact List.cons_subset_cons _ hsub
        · exact fun r hr => List.mem_cons_of_mem _ (hsub hr)
      | testReady => split_ifs at hphase
      | _ => cases hphase
    · intro u hu
      obtain ⟨runId, -, rfl⟩ := Option.map_eq_some_iff.mp (Option.mem_toList.mp hu)
      trivial
  | runTask h =>
    refine ⟨trivial, fun u hu => ?_⟩
    obtain ⟨task, -, rfl⟩ := List.mem_map.mp hu
    trivial

theorem owesUpload_schedules {schedules : List Schedule} (dpId : DpId)
    (h : ∀ withBlocks upload, .pullExternalData withBlocks upload ∉ schedules) :
    ((schedules.map Schedule.process).map (owesUpload dpId)).sum = 0 := by
  refine List.sum_eq_zero fun n hn => ?_
  obtain ⟨u, hu, rfl⟩ := List.mem_map.mp hn
  obtain ⟨schedule, hmem, rfl⟩ := List.mem_map.mp hu
  cases schedule with
  | pullExternalData withBlocks upload => exact absurd hmem (h withBlocks upload)
  | _ => rfl

/-- What a step does to the slot of a provider and to the upload that is owed to it. -/
inductive AccountStep (dpId : DpId) (s : Server) (t : Process) (a : Action) (s' : Server)
    (t' : Process) (started : List Process) : Prop
  | acquire {state : UploadedState} (hstate : s.db.uploadedState dpId = some state)
      (hfree : Database.Free state = true) (hstate' : s'.db.uploadedState dpId = some .inProgress)
      (howes : owesUpload dpId t' + (started.map (owesUpload dpId)).sum +
        (if insertsFor s t a = some dpId then 1 else 0) = owesUpload dpId t + 1)
  | keep (hstate : s'.db.uploadedState dpId = s.db.uploadedState dpId ∨
        s.db.uploadedState dpId = some .inProgress ∧ s'.db.uploadedState dpId = some .done)
      (howes : owesUpload dpId t' + (started.map (owesUpload dpId)).sum +
        (if insertsFor s t a = some dpId then 1 else 0) = owesUpload dpId t)

theorem accountStep_request {r : UploadRequest} {db : Database} {phase : RequestPhase}
    {schedules : List Schedule} (hkeys : s.db.UniqueProviders)
    (hheld : r.phase = .accepted → s.db.uploadedState r.upload.dpId = some .inProgress)
    (ha : a ≠ .raise ∧ a ≠ .problem) (hproper : Proper s (.request r))
    (h : RequestStep s.db r a db phase schedules) (dpId : DpId) :
    AccountStep dpId s (.request r) a { s with db := db } (.request { r with phase := phase })
      (schedules.map Schedule.process) := by
  by_cases hdp : r.upload.dpId = dpId
  · subst hdp
    cases h with
    | lock h hfree =>
      obtain ⟨state, hstate, hfree⟩ := Database.free_of_lock hkeys hfree
      refine .acquire hstate hfree ?_ (by simp [owesUpload, insertsFor, h])
      simp [hstate, hfree]
    | insert h hok hroute =>
      refine .keep (.inl ?_) (by simp [owesUpload, insertsFor, h, hroute])
      exact uploadedState_congr (UploadRequest.insertOwnMetadata_ok hok).1.dataproviders _
    | delegate h withBlocks hroute =>
      refine .keep (.inl rfl) ?_
      cases withBlocks <;>
        simp [owesUpload, insertsFor, h, hroute, Schedule.process]
    | store h hok =>
      refine .keep (.inl ?_) (by simp [owesUpload, insertsFor, h])
      exact uploadedState_congr (Upload.setReady_ok hok).1.dataproviders _
    | setDone h =>
      refine .keep (.inr ⟨hheld h, ?_⟩) (by simp [owesUpload, insertsFor, h])
      simp [hheld h]
    | reset h => exact absurd h (hproper _)
    | fail hraise | abort hraise => exact absurd hraise (not_or.mpr ha)
    | @check h uploaded =>
      refine .keep (.inl rfl) ?_
      cases uploaded <;> simp [owesUpload, insertsFor, h]
    | _ h =>
      exact .keep (.inl rfl) (by simp [owesUpload, insertsFor, h, Schedule.process])
  · refine .keep (.inl (uploadedState_requestStep h (Ne.symm hdp))) ?_
    have hinserts : insertsFor s (.request r) a ≠ some dpId := by
      unfold insertsFor
      split
      case h_1 hr =>
        cases hr
        split_ifs
        · simpa using hdp
        · simp
      case h_2 hr => cases hr
      case h_3 => simp
    have hstarted : ((schedules.map Schedule.process).map (owesUpload dpId)).sum = 0 := by
      cases h with
      | delegate => simp [owesUpload, Schedule.process, hdp]
      | _ => exact owesUpload_schedules dpId (by simp)
    rw [hstarted, if_neg hinserts]
    simp [owesUpload, hdp]

theorem accountStep_uploadTask {t : UploadTask} {db : Database} {phase : UploadTaskPhase}
    {schedules : List Schedule} (ha : a ≠ .raise) (hproper : Proper s (.uploadTask t))
    (h : UploadTaskStep settings s.db t a db phase schedules) (dpId : DpId) :
    AccountStep dpId s (.uploadTask t) a { s with db := db } (.uploadTask { t with phase := phase })
      (schedules.map Schedule.process) := by
  have hdataproviders : db.dataproviders = s.db.dataproviders :=
    dataproviders_step (.uploadTask h) (by simp)
  refine .keep (.inl (uploadedState_congr hdataproviders dpId)) ?_
  cases h with
  | insertReady h | insertMetadata h => simp [owesUpload, insertsFor, h]
  | checkSize h hphase => rcases hphase with rfl | rfl <;> simp [owesUpload, insertsFor, h]
  | @setReady _ phase h =>
    cases hphase : t.phase with
    | sizeChecked | metadataInserted =>
      rw [hphase] at h
      cases h
      simp [owesUpload, insertsFor, hphase]
    | _ =>
      rw [hphase] at h
      cases h
  | @checkReady h b | @checkUploaded h b => cases b <;> simp [owesUpload, insertsFor, h]
  | notify h => rcases h with h | h <;> simp [owesUpload, insertsFor, h, Schedule.process]
  | recordError h => exact absurd h hproper.1
  | fail => exact absurd rfl ha
  | _ h => simp [owesUpload, insertsFor, h]

theorem accountStep_of_smooth (hkeys : s.db.UniqueProviders)
    (hheld : ∀ r, t = .request r → r.phase = .accepted →
      s.db.uploadedState r.upload.dpId = some .inProgress)
    (hsmooth : smooth s t a) (hproper : Proper s t)
    (hstep : ServiceStep settings s t a s' t' started) (dpId : DpId) :
    AccountStep dpId s t a s' t' started := by
  obtain ⟨hraise, hproblem, -⟩ : a ≠ .raise ∧ a ≠ .problem ∧ ownProject s t = true := by
    simpa [smooth] using hsmooth
  have hstate : (∀ r, t ≠ .request r) →
      s'.db.uploadedState dpId = s.db.uploadedState dpId := fun hr =>
    uploadedState_congr (dataproviders_step hstep hr) dpId
  cases hstep with
  | request h => exact accountStep_request hkeys (hheld _ rfl) ⟨hraise, hproblem⟩ hproper h dpId
  | uploadTask h => exact accountStep_uploadTask hraise hproper h dpId
  | @post p a s' phase checks h =>
    refine .keep (.inl (hstate (by simp))) ?_
    cases checks <;> simp [owesUpload, insertsFor]
  | @check c a s' phase newRun h =>
    refine .keep (.inl (hstate (by simp))) ?_
    cases newRun <;> simp [owesUpload, insertsFor]
  | @runTask t t' a s' started h =>
    refine .keep (.inl (hstate (by simp))) ?_
    have hstarted : ((started.map Process.runTask).map (owesUpload dpId)).sum = 0 := by
      refine List.sum_eq_zero fun n hn => ?_
      obtain ⟨u, hu, rfl⟩ := List.mem_map.mp hn
      obtain ⟨task, -, rfl⟩ := List.mem_map.mp hu
      rfl
    rw [hstarted]
    simp [owesUpload, insertsFor]

end Step

/-- The rows of a provider and those owed to it make one once its slot is taken. -/
def Accounted (dpId : DpId) (p : Pool Server Process) : Prop :=
  (p.shared.db.uploadsOf dpId).length + p.total (owesUpload dpId) =
    if p.shared.db.uploadedState dpId = some .inProgress ∨
      p.shared.db.uploadedState dpId = some .done then 1 else 0

section Reaches
variable {settings : Settings} {p₀ p : Pool Server Process}

theorem proper_of_arriving {s : Server} {t : Process} (h : t.Arriving) : Proper s t := by
  cases t with
  | request r =>
    have hphase : r.phase = .received := by simpa [Process.Arriving] using h
    intro problem
    simp [hphase]
  | post => trivial
  | _ => cases h

theorem proper_of_reaches (hinit : ∀ t ∈ p₀.processes, t.Arriving)
    (h : Pool.Reaches ((service settings).restrict smooth) p₀ p) :
    ∀ t ∈ p.processes, Proper p.shared t := by
  refine h.invariant (I := fun p => ∀ t ∈ p.processes, Proper p.shared t)
    (fun t ht => proper_of_arriving (hinit t ht)) ?_
  rintro s before t after a s' t' started - hproper hprogram
  obtain ⟨hsmooth, hprogram⟩ := Program.restrict_eq_some.mp hprogram
  have hstep := serviceStep_of_step hprogram
  have hself := proper_step hsmooth (hproper t List.mem_append_cons_self) hstep
  exact Pool.forall_step hproper (fun u _ hu => hu.congr (providerKeys_step hstep))
    (fun _ => hself.1) hself.2

theorem accounted_of_reaches (hkeys : p₀.shared.db.UniqueProviders)
    (hinit : ∀ t ∈ p₀.processes, t.Arriving) (hfresh : p₀.shared.Fresh)
    (h : Pool.Reaches ((service settings).restrict smooth) p₀ p) (dpId : DpId) :
    Accounted dpId p := by
  refine h.invariant (I := Accounted dpId) ?_ ?_
  · have howes : p₀.total (owesUpload dpId) = 0 :=
      total_eq_zero_of_arriving hinit (fun r hphase => by simp [owesUpload, hphase]) fun _ => rfl
    have hstate : ∀ state, p₀.shared.db.uploadedState dpId = some state → state = .notStarted := by
      intro state hstate
      obtain ⟨d, hd, rfl⟩ := Option.map_eq_some_iff.mp hstate
      exact hfresh.notStarted d (List.mem_of_find?_eq_some hd)
    have hfree : ¬ (p₀.shared.db.uploadedState dpId = some .inProgress ∨
        p₀.shared.db.uploadedState dpId = some .done) := by
      rintro (h | h) <;> cases hstate _ h
    unfold Accounted
    rw [if_neg hfree, howes, Database.uploadsOf, hfresh.uploads]
    rfl
  · rintro s before t after a s' t' started hreaches haccounted hprogram
    obtain ⟨hsmooth, hprogram⟩ := Program.restrict_eq_some.mp hprogram
    have hstep := serviceStep_of_step hprogram
    have htracked := slotTracked_of_reaches hkeys hinit hreaches.of_restrict
    have hheld : ∀ r, t = .request r → r.phase = .accepted →
        s.db.uploadedState r.upload.dpId = some .inProgress := by
      rintro r rfl hphase
      have hone : 0 < requestsIn RequestPhase.Holding r.upload.dpId (.request r) := by
        simp [requestsIn, hphase, RequestPhase.Holding]
      exact (htracked r.upload.dpId).inProgress
        (Pool.total_pos.mpr ⟨_, List.mem_append_cons_self, hone⟩)
    have hrows := (tables_step hstep).2 dpId
    have htotal := Pool.total_step (owesUpload dpId) s s' before after started t t'
    unfold Accounted at haccounted ⊢
    dsimp only at haccounted ⊢
    have haccount : AccountStep dpId s t a s' t' started :=
      accountStep_of_smooth (uniqueProviders_of_reaches hkeys hreaches.of_restrict) hheld
        hsmooth (proper_of_reaches hinit hreaches t List.mem_append_cons_self) hstep dpId
    cases haccount with
    | @acquire state hstate hfree hstate' howes =>
      have hnot : ¬ (s.db.uploadedState dpId = some .inProgress ∨
          s.db.uploadedState dpId = some .done) := by
        rw [hstate]
        rintro (h | h) <;> cases h <;> cases hfree
      rw [if_neg hnot] at haccounted
      rw [if_pos (.inl hstate')]
      omega
    | keep hstate howes =>
      have hsame : (s'.db.uploadedState dpId = some .inProgress ∨
          s'.db.uploadedState dpId = some .done) ↔ (s.db.uploadedState dpId = some .inProgress ∨
            s.db.uploadedState dpId = some .done) := by
        rcases hstate with hstate | ⟨hstate, hstate'⟩
        · rw [hstate]
        · simp [hstate, hstate']
      rw [if_congr hsame rfl rfl]
      omega

theorem singleUploads_of_smooth (hkeys : p₀.shared.db.UniqueProviders)
    (hinit : ∀ t ∈ p₀.processes, t.Arriving) (hfresh : p₀.shared.Fresh)
    (h : Pool.Reaches ((service settings).restrict smooth) p₀ p) :
    p.shared.db.SingleUploads := by
  intro dpId
  have haccounted := accounted_of_reaches hkeys hinit hfresh h dpId
  unfold Accounted at haccounted
  split_ifs at haccounted <;> omega

end Reaches
end EntityService.Service
