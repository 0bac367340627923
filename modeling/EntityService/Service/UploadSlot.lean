import EntityService.Service.RunSteps
import EntityService.Tasks.Success
import EntityService.Views.AuthChecks

/-! The upload slot of a data provider. Only the request that holds the slot can release it, and
no request gets it again once an upload is done. -/
namespace EntityService.Service
open Lib

/-- The request has locked its provider and has yet to set the upload state for the last time. -/
def RequestPhase.Holding : RequestPhase → Bool
  | .locked | .inserted | .handedOver | .raised _ | .accepted => true
  | _ => false

def RequestPhase.Finished : RequestPhase → Bool
  | .done | .allUploaded | .created => true
  | _ => false

/-- Count the requests for a provider in some phases. -/
def requestsIn (phases : RequestPhase → Bool) (dpId : DpId) : Process → ℕ
  | .request r => if r.upload.dpId = dpId ∧ phases r.phase then 1 else 0
  | _ => 0

theorem requestsIn_self (phases : RequestPhase → Bool) (r : UploadRequest) (phase : RequestPhase) :
    requestsIn phases r.upload.dpId (.request { r with phase := phase }) =
      if phases phase = true then 1 else 0 := by
  simp [requestsIn]

structure SlotExclusive (dpId : DpId) (p : Pool Server Process) : Prop where
  holding : p.total (requestsIn RequestPhase.Holding dpId) ≤ 1
  created : p.total (requestsIn (fun phase => phase = .created) dpId) ≤ 1

/-- The slot is in progress while a request holds it and done after one has finished. -/
structure SlotTracked (dpId : DpId) (p : Pool Server Process) : Prop where
  exclusive : p.total (requestsIn RequestPhase.Holding dpId) +
    p.total (requestsIn RequestPhase.Finished dpId) ≤ 1
  inProgress : 0 < p.total (requestsIn RequestPhase.Holding dpId) →
    p.shared.db.uploadedState dpId = some .inProgress
  done : 0 < p.total (requestsIn RequestPhase.Finished dpId) →
    p.shared.db.uploadedState dpId = some .done

inductive SlotStep (dpId : DpId) (db : Database) (phase : RequestPhase) (db' : Database)
    (phase' : RequestPhase) : Prop
  | acquire {state : UploadedState} (hstate : db.uploadedState dpId = some state)
      (hfree : Database.Free state = true) (hphase : phase.Holding = false)
      (hphase' : phase'.Holding = true) (hfinished : phase.Finished = false)
      (hfinished' : phase'.Finished = false) (hstate' : db'.uploadedState dpId = some .inProgress)
  | keep (hholding : phase'.Holding = phase.Holding)
      (hfinished : phase'.Finished = true → phase.Finished = true)
      (hstate : db'.uploadedState dpId = db.uploadedState dpId)
  | finish (hphase : phase.Holding = true) (hphase' : phase'.Holding = false)
      (hfinished : phase.Finished = false) (hfinished' : phase'.Finished = true)
      (hstate : db'.uploadedState dpId = (db.uploadedState dpId).map fun _ => .done)
  | release (hphase : phase.Holding = true) (hphase' : phase'.Holding = false)
      (hfinished : phase.Finished = false) (hfinished' : phase'.Finished = false)

theorem uploadedState_congr {db db' : Database} (h : db'.dataproviders = db.dataproviders)
    (dpId : DpId) : db'.uploadedState dpId = db.uploadedState dpId := by
  unfold Database.uploadedState
  rw [h]

section Request
variable {r : UploadRequest} {db db' : Database} {a : Action} {phase : RequestPhase}
  {schedules : List Schedule}

theorem slotStep_of_requestStep (hkeys : db.UniqueProviders)
    (h : RequestStep db r a db' phase schedules) :
    SlotStep r.upload.dpId db r.phase db' phase := by
  cases h with
  | lock h hfree =>
    obtain ⟨state, hstate, hfree⟩ := Database.free_of_lock hkeys hfree
    refine .acquire hstate hfree (by rw [h]; rfl) rfl (by rw [h]; rfl) rfl ?_
    rw [Database.uploadedState_lock, if_pos rfl, hstate, Option.map_some, if_pos hfree]
  | insert h hok =>
    exact .keep (by rw [h]; rfl) nofun
      (uploadedState_congr (UploadRequest.insertOwnMetadata_ok hok).1.dataproviders _)
  | store h hok =>
    exact .keep (by rw [h]; rfl) nofun
      (uploadedState_congr (Upload.setReady_ok hok).1.dataproviders _)
  | setDone h =>
    refine .finish (by rw [h]; rfl) rfl (by rw [h]; rfl) rfl ?_
    rw [Database.uploadedState_setDataproviderUploadState, if_pos rfl]
  | reset h => exact .release (by rw [h]; rfl) rfl (by rw [h]; rfl) rfl
  | fail ha h =>
    refine .keep ?_ nofun rfl
    cases hp : r.phase with
    | locked | inserted | handedOver => rfl
    | _ =>
      rw [hp] at h
      cases h
  | abort ha h =>
    cases hp : r.phase with
    | raised | accepted => exact .release rfl rfl rfl rfl
    | _ => exact .keep (by first | rfl | (rw [hp] at h; cases h)) nofun rfl
  | check h =>
    rename_i uploaded huploaded
    cases uploaded <;> exact .keep (by rw [h]; rfl) (fun _ => by rw [h]; rfl) rfl
  | notify h => exact .keep (by rw [h]; rfl) (fun _ => by rw [h]; rfl) rfl
  | _ h => exact .keep (by rw [h]; rfl) nofun rfl

theorem uploadedState_requestStep (h : RequestStep db r a db' phase schedules) {dpId : DpId}
    (hdp : dpId ≠ r.upload.dpId) : db'.uploadedState dpId = db.uploadedState dpId := by
  cases h with
  | lock => rw [Database.uploadedState_lock, if_neg hdp]
  | insert _ hok =>
    exact uploadedState_congr (UploadRequest.insertOwnMetadata_ok hok).1.dataproviders _
  | store _ hok => exact uploadedState_congr (Upload.setReady_ok hok).1.dataproviders _
  | setDone | reset => rw [Database.uploadedState_setDataproviderUploadState, if_neg hdp]
  | _ => rfl

theorem providerKeys_requestStep (h : RequestStep db r a db' phase schedules) :
    db'.providerKeys = db.providerKeys := by
  have hcongr : ∀ {db' : Database}, db'.dataproviders = db.dataproviders →
      db'.providerKeys = db.providerKeys := by
    intro db' h
    rw [Database.providerKeys, h]
    rfl
  cases h with
  | lock => rw [Database.providerKeys_lock]
  | insert _ hok => exact hcongr (UploadRequest.insertOwnMetadata_ok hok).1.dataproviders
  | store _ hok => exact hcongr (Upload.setReady_ok hok).1.dataproviders
  | setDone | reset => rw [Database.providerKeys_setDataproviderUploadState]
  | _ => rfl

end Request

section Step
variable {settings : Settings} {s s' : Server} {t t' : Process} {a : Action}
  {started : List Process}

theorem requestsIn_started (hstep : ServiceStep settings s t a s' t' started)
    (phases : RequestPhase → Bool) (dpId : DpId) :
    (started.map (requestsIn phases dpId)).sum = 0 := by
  refine List.sum_eq_zero fun n hn => ?_
  obtain ⟨u, hu, rfl⟩ := List.mem_map.mp hn
  have hscheduled := scheduled_of_step hstep u hu
  cases u with
  | request => cases hscheduled
  | _ => rfl

/-- The providers are changed by the requests only. -/
theorem dataproviders_step (hstep : ServiceStep settings s t a s' t' started)
    (hrequest : ∀ r, t ≠ .request r) : s'.db.dataproviders = s.db.dataproviders := by
  cases hstep with
  | request => exact absurd rfl (hrequest _)
  | uploadTask h =>
    cases h with
    | invalidate _ hok => exact (Database.changesUploads_invalidateUpload hok).1.dataproviders
    | setReady _ hok => exact (Upload.setReady_ok hok).1.dataproviders
    | insertReady _ hok => exact (Upload.insertReady_ok hok).1.dataproviders
    | insertMetadata _ hok => exact (Upload.insertSizedMetadata_ok hok).1.dataproviders
    | recordError =>
      dsimp only [Database.updateUploadState]
      split_ifs <;> rfl
    | _ => rfl
  | post h => rw [db_postStep h]
  | check h =>
    cases h with
    | invalidate _ hok => exact (Database.changesUploads_invalidateUpload hok).1.dataproviders
    | commit => exact dataproviders_commit _ _ _ _ _
    | _ => rfl
  | runTask h => rw [db_runTaskStep h]

theorem providerKeys_step (hstep : ServiceStep settings s t a s' t' started) :
    s'.db.providerKeys = s.db.providerKeys := by
  by_cases hrequest : ∃ r, t = .request r
  · obtain ⟨r, rfl⟩ := hrequest
    cases hstep with
    | request h => exact providerKeys_requestStep h
  · push Not at hrequest
    rw [Database.providerKeys, dataproviders_step hstep hrequest]
    rfl

theorem requestsIn_of_not_request (hstep : ServiceStep settings s t a s' t' started)
    (hrequest : ∀ r, t ≠ .request r) (phases : RequestPhase → Bool) (dpId : DpId) :
    requestsIn phases dpId t = 0 ∧ requestsIn phases dpId t' = 0 := by
  cases hstep with
  | request => exact absurd rfl (hrequest _)
  | _ => exact ⟨rfl, rfl⟩

end Step

section Reaches
variable {settings : Settings} {p₀ p : Pool Server Process}

/-- What no request has before it is started counts nothing among requests that have arrived. -/
theorem total_eq_zero_of_arriving (hinit : ∀ t ∈ p₀.processes, t.Arriving) {f : Process → ℕ}
    (hrequest : ∀ r : UploadRequest, r.phase = .received → f (.request r) = 0)
    (hpost : ∀ p, f (.post p) = 0) : p₀.total f = 0 := by
  refine Pool.total_eq_zero.mpr fun t ht => ?_
  have harriving := hinit t ht
  cases t with
  | request r => exact hrequest r (by simpa [Process.Arriving] using harriving)
  | post p => exact hpost p
  | _ => cases harriving

theorem uniqueProviders_of_reaches (hkeys : p₀.shared.db.UniqueProviders)
    (h : Pool.Reaches (service settings) p₀ p) : p.shared.db.UniqueProviders := by
  refine h.invariant (I := fun p => p.shared.db.UniqueProviders) hkeys ?_
  rintro s before t after a s' t' started - hkeys hprogram
  exact hkeys.of_keys (providerKeys_step (serviceStep_of_step hprogram))

theorem slotTracked_of_reaches (hkeys : p₀.shared.db.UniqueProviders)
    (hinit : ∀ t ∈ p₀.processes, t.Arriving) (h : Pool.Reaches (service settings) p₀ p)
    (dpId : DpId) : SlotTracked dpId p := by
  refine h.invariant (I := fun p => SlotTracked dpId p) ?_ ?_
  · have hzero : ∀ phases : RequestPhase → Bool, phases .received = false →
        p₀.total (requestsIn phases dpId) = 0 := fun phases hphases =>
      total_eq_zero_of_arriving hinit (fun r hphase => by simp [requestsIn, hphase, hphases])
        fun _ => rfl
    have h1 := hzero RequestPhase.Holding rfl
    have h2 := hzero RequestPhase.Finished rfl
    exact ⟨by omega, by omega, by omega⟩
  · rintro s before t after a s' t' started hreaches ⟨hexclusive, hprogress, hdone⟩ hprogram
    have hkeys' := uniqueProviders_of_reaches hkeys hreaches
    have hstep := serviceStep_of_step hprogram
    have htotal := fun phases => Pool.total_step (requestsIn phases dpId) s s' before after started
      t t'
    have hH := htotal RequestPhase.Holding
    have hF := htotal RequestPhase.Finished
    rw [requestsIn_started hstep] at hH hF
    -- a step that leaves both counts and the state alone keeps the invariant
    have hsame : (∀ phases, requestsIn phases dpId t' = requestsIn phases dpId t) →
        s'.db.uploadedState dpId = s.db.uploadedState dpId →
          SlotTracked dpId ⟨s', before ++ t' :: after ++ started⟩ := by
      intro hcount hstate
      rw [hcount] at hH hF
      refine ⟨by omega, fun hpos => ?_, fun hpos => ?_⟩
      · exact hstate.trans (hprogress (by omega))
      · exact hstate.trans (hdone (by omega))
    by_cases hrequest : ∃ r, t = .request r
    · obtain ⟨r, rfl⟩ := hrequest
      cases hstep with
      | @request r a db phase schedules h =>
        by_cases hdp : r.upload.dpId = dpId
        · subst hdp
          rw [requestsIn_self, requestsIn_self] at hH hF
          cases slotStep_of_requestStep hkeys' h with
          | acquire hstate hfree hphase hphase' hfinished hfinished' hstate' =>
            -- a free slot is neither held nor done
            have hH0 : ¬ 0 < Pool.total (requestsIn RequestPhase.Holding r.upload.dpId)
                ⟨s, before ++ .request r :: after⟩ := by
              intro hpos
              rw [show s.db.uploadedState r.upload.dpId = _ from hprogress hpos] at hstate
              cases hstate
              cases hfree
            have hF0 : ¬ 0 < Pool.total (requestsIn RequestPhase.Finished r.upload.dpId)
                ⟨s, before ++ .request r :: after⟩ := by
              intro hpos
              rw [show s.db.uploadedState r.upload.dpId = _ from hdone hpos] at hstate
              cases hstate
              cases hfree
            simp only [hphase, hphase', hfinished, hfinished', if_true, if_false,
              Bool.false_eq_true] at hH hF
            exact ⟨by omega, fun _ => hstate', fun hpos => absurd hpos (by omega)⟩
          | keep hholding hfinished hstate =>
            simp only [hholding] at hH
            have hle : (if phase.Finished = true then 1 else 0) ≤
                if r.phase.Finished = true then 1 else 0 := by
              split_ifs with h1 h2
              · exact le_rfl
              · exact absurd (hfinished h1) h2
              · exact Nat.zero_le _
              · exact le_rfl
            refine ⟨by omega, fun hpos => ?_, fun hpos => ?_⟩
            · exact hstate.trans (hprogress (by omega))
            · exact hstate.trans (hdone (by omega))
          | finish hphase hphase' hfinished hfinished' hstate =>
            simp only [hphase, hphase', hfinished, hfinished', if_true, if_false,
              Bool.false_eq_true] at hH hF
            have hheld := hprogress (by omega)
            refine ⟨by omega, fun hpos => absurd hpos (by omega), fun _ => ?_⟩
            exact hstate.trans (by rw [show s.db.uploadedState _ = _ from hheld]; rfl)
          | release hphase hphase' hfinished hfinished' =>
            simp only [hphase, hphase', hfinished, hfinished', if_true, if_false,
              Bool.false_eq_true] at hH hF
            exact ⟨by omega, fun hpos => absurd hpos (by omega), fun hpos => absurd hpos (by omega)⟩
        · refine hsame (fun phases => ?_) (uploadedState_requestStep h (Ne.symm hdp))
          simp only [requestsIn, hdp, false_and]
    · push Not at hrequest
      have hnone := requestsIn_of_not_request hstep hrequest
      refine hsame (fun phases => ?_) (uploadedState_congr (dataproviders_step hstep hrequest) dpId)
      rw [(hnone phases dpId).1, (hnone phases dpId).2]

/-- The slot of a provider is exclusive, only one upload is ever accepted for it, and a step does
not undo an upload that is done. -/
theorem slotExclusive_of_reaches (hkeys : p₀.shared.db.UniqueProviders)
    (hinit : ∀ t ∈ p₀.processes, t.Arriving) (h : Pool.Reaches (service settings) p₀ p)
    (dpId : DpId) : SlotExclusive dpId p ∧ ∀ p', Pool.Reaches (service settings) p p' →
      p.shared.db.uploadedState dpId = some .done →
        p'.shared.db.uploadedState dpId = some .done := by
  obtain ⟨hexclusive, -, -⟩ := slotTracked_of_reaches hkeys hinit h dpId
  refine ⟨⟨by omega, ?_⟩, fun p' hp' hdone => ?_⟩
  · have hle : p.total (requestsIn (fun phase => phase = .created) dpId) ≤
        p.total (requestsIn RequestPhase.Finished dpId) := by
      refine Pool.total_mono fun t _ => ?_
      cases t with
      | request r =>
        cases hphase : r.phase <;> simp [requestsIn, hphase, RequestPhase.Finished]
      | _ => exact le_rfl
    omega
  · refine hp'.invariant (I := fun p => p.shared.db.uploadedState dpId = some .done) hdone ?_
    rintro s before t after a s' t' started hreaches hdone hprogram
    have htracked := slotTracked_of_reaches hkeys hinit (h.trans hreaches) dpId
    have hkeys' := uniqueProviders_of_reaches hkeys (h.trans hreaches)
    have hstep := serviceStep_of_step hprogram
    by_cases hrequest : ∃ r, t = .request r
    · obtain ⟨r, rfl⟩ := hrequest
      cases hstep with
      | @request r a db phase schedules hr =>
        by_cases hdp : r.upload.dpId = dpId
        · subst hdp
          -- a request that holds the slot would have found it in progress
          have hfree : r.phase.Holding = false := by
            by_contra hholding
            rw [Bool.not_eq_false] at hholding
            have hone : 0 < requestsIn RequestPhase.Holding r.upload.dpId (.request r) := by
              rw [requestsIn_self, if_pos hholding]
              exact Nat.one_pos
            have hprogress := htracked.inProgress
              (Pool.total_pos.mpr ⟨Process.request r, List.mem_append_cons_self, hone⟩)
            rw [hdone] at hprogress
            cases hprogress
          cases slotStep_of_requestStep hkeys' hr with
          | acquire hstate hstatefree =>
            rw [hdone] at hstate
            cases hstate
            cases hstatefree
          | keep _ _ hstate => exact hstate.trans hdone
          | finish hphase => rw [hphase] at hfree; cases hfree
          | release hphase => rw [hphase] at hfree; cases hfree
        · exact (uploadedState_requestStep hr (Ne.symm hdp)).trans hdone
    · push Not at hrequest
      exact (uploadedState_congr (dataproviders_step hstep hrequest) dpId).trans hdone

end Reaches

/-- Two projects with two data providers each, before anything is uploaded. -/
def newServer : Server := ⟨Views.twoProjects, Dict.empty, Dict.empty⟩

/-- An upload of two encodings in one block. -/
def smallUpload (projectId : ProjectId) (dpId : DpId) (receiptToken : Token) : Upload :=
  ⟨projectId, dpId, receiptToken, 2, 1, 8⟩

def twoRequests : Pool Server Process where
  shared := newServer
  processes := [.request ⟨smallUpload "p" 1 "x", .binaryclks, .received⟩,
    .request ⟨smallUpload "p" 1 "y", .json, .received⟩]

theorem slotExclusive_twoRequests : ∃ p,
    Pool.Reaches (service Tasks.defaultSettings) twoRequests p ∧
    p.total (requestsIn (fun phase => phase = .created) 1) = 1 ∧ SlotExclusive 1 p := by
  have hrun : (twoRequests.run (service Tasks.defaultSettings)
      [(0, .proceed), (1, .proceed), (0, .proceed), (0, .proceed), (0, .proceed), (0, .proceed),
        (0, .proceed)]).any
          fun p => p.total (requestsIn (fun phase => phase = .created) 1) = 1 := by
    decide
  obtain ⟨p, hp, hcreated⟩ := (Option.any_eq_true _ _).mp hrun
  have hreaches := Pool.reaches_of_run hp
  exact ⟨p, hreaches, of_decide_eq_true hcreated,
    (slotExclusive_of_reaches (by decide) (by decide) hreaches 1).1⟩

end EntityService.Service
