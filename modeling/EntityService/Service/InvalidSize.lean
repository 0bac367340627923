import EntityService.Service.Settling

/-! Uploads of an encoding size that does not fit the project. The task marks them as failed, and
then makes them ready all the same, unless that transaction fails. -/
namespace EntityService.Service
open Lib

/-- A step of the uploads of a provider that makes none of them ready, and leaves those in error
that have failed. -/
structure OnlyFails (dpId : DpId) (db db' : Database) : Prop where
  rows : ∃ f : UploadRow → UploadRow, db'.uploadsOf dpId = (db.uploadsOf dpId).map f ∧
    ∀ r, (f r).state = r.state ∨ (f r).state = .error

namespace OnlyFails
variable {dpId : DpId} {db db' : Database}

theorem of_eq (h : db'.uploadsOf dpId = db.uploadsOf dpId) : OnlyFails dpId db db' :=
  ⟨id, by rw [h, List.map_id], fun _ => .inl rfl⟩

theorem errors (h : OnlyFails dpId db db')
    (herror : ∀ r ∈ db.uploadsOf dpId, r.state = .error) :
    ∀ r ∈ db'.uploadsOf dpId, r.state = .error := by
  obtain ⟨f, hrows, hf⟩ := h.rows
  intro r hr
  rw [hrows] at hr
  obtain ⟨r', hr', rfl⟩ := List.mem_map.mp hr
  rcases hf r' with he | he
  · rw [he, herror r' hr']
  · exact he

theorem not_ready (h : OnlyFails dpId db db')
    (hready : ∀ r ∈ db.uploadsOf dpId, r.state ≠ .ready) :
    ∀ r ∈ db'.uploadsOf dpId, r.state ≠ .ready := by
  obtain ⟨f, hrows, hf⟩ := h.rows
  intro r hr
  rw [hrows] at hr
  obtain ⟨r', hr', rfl⟩ := List.mem_map.mp hr
  rcases hf r' with he | he
  · rw [he]
    exact hready r' hr'
  · simp [he]

theorem ne_nil (h : OnlyFails dpId db db') (hne : db.uploadsOf dpId ≠ []) :
    db'.uploadsOf dpId ≠ [] := by
  obtain ⟨f, hrows, -⟩ := h.rows
  rw [hrows]
  simpa using hne

theorem of_invalidateUpload {d : DpId} (h : db.invalidateUpload d = .ok db') :
    OnlyFails dpId db db' := by
  obtain ⟨hchanges, hrows⟩ := Database.changesUploads_invalidateUpload h
  by_cases hd : dpId = d
  · subst hd
    exact ⟨_, hrows, fun _ => .inr rfl⟩
  · exact of_eq (hchanges.other dpId hd)

end OnlyFails

section Step
variable {settings : Settings} {s s' : Server} {t t' : Process} {a : Action}
  {started : List Process} {dpId : DpId}

/-- A process that stores nothing for a provider makes none of its uploads ready. -/
theorem onlyFails_of_step (hstep : ServiceStep settings s t a s' t' started)
    (hstores : storesFor dpId t = 0) (hinserts : insertsFor s t a ≠ some dpId) :
    OnlyFails dpId s.db s'.db := by
  cases hstep with
  | @request r a db phase schedules h =>
    by_cases hdp : r.upload.dpId = dpId
    · subst hdp
      cases h with
      | insert h _ hroute => exact absurd (by simp [insertsFor, h, hroute]) hinserts
      | store h => simp [storesFor, h] at hstores
      | lock h =>
        rw [Database.lock_eq]
        exact .of_eq rfl
      | _ => exact .of_eq rfl
    · exact .of_eq (uploadsOf_requestStep h (Ne.symm hdp))
  | @uploadTask t a db phase schedules h =>
    cases h with
    | invalidate _ hok => exact .of_invalidateUpload hok
    | @setReady _ phase h hok =>
      by_cases hdp : t.upload.dpId = dpId
      · have hstoring : t.phase.Storing = true := by
          cases hphase : t.phase <;> rw [hphase] at h <;> cases h <;> rfl
        simp [storesFor, hdp, hstoring] at hstores
      · exact .of_eq ((Upload.setReady_ok hok).1.other dpId (Ne.symm hdp))
    | insertReady h hok =>
      by_cases hdp : t.upload.dpId = dpId
      · exact absurd (by simp [insertsFor, h, hdp]) hinserts
      · exact .of_eq ((Upload.insertReady_ok hok).1.other dpId (Ne.symm hdp))
    | insertMetadata h hok =>
      by_cases hdp : t.upload.dpId = dpId
      · exact absurd (by simp [insertsFor, h, hdp]) hinserts
      · exact .of_eq ((Upload.insertSizedMetadata_ok hok).1.other dpId (Ne.symm hdp))
    | recordError h =>
      rcases Database.updateUploadState_cases s.db t.upload.dpId t.upload.receiptToken .error with
        ⟨-, hrows⟩ | ⟨htoken, hchanges, -⟩
      · refine ⟨_, hrows dpId, fun r => ?_⟩
        by_cases hr : r.token = t.upload.receiptToken <;> simp [hr]
      · by_cases hdp : t.upload.dpId = dpId
        · exact absurd (by simp [insertsFor, h, htoken, hdp]) hinserts
        · exact .of_eq (hchanges.other dpId (Ne.symm hdp))
    | _ => exact .of_eq rfl
  | post h => exact .of_eq (by rw [db_postStep h])
  | check h =>
    cases h with
    | invalidate _ hok => exact .of_invalidateUpload hok
    | commit =>
      refine .of_eq ?_
      rw [Database.uploadsOf, uploads_commit]
      rfl
    | _ => exact .of_eq rfl
  | runTask h => exact .of_eq (by rw [db_runTaskStep h])

end Step
def noNewUpload (dpId : DpId) (s : Server) (t : Process) (a : Action) : Bool :=
  insertsFor s t a ≠ some dpId

/-- The task marks the invalid upload, and the transaction fails that would make it ready. -/
def onlyMarked (dpId : DpId) (_ : Server) (t : Process) (a : Action) : Bool :=
  match t with
  | .uploadTask t => t.upload.dpId = dpId →
      (t.phase = .invalidSize → a ≠ .raise) ∧ (t.phase = .sizeChecked → a ≠ .proceed)
  | _ => true

/-- The task at the index is past the check of the encoding size, and no other process stores an
upload of its provider. -/
structure Invalidated (u : Upload) (i : ℕ) (phase : UploadTaskPhase) (p : Pool Server Process) :
    Prop where
  task : p.processes[i]? = some (.uploadTask ⟨u, phase⟩)
  alone : p.total (storesFor u.dpId) = if phase.Storing then 1 else 0
  uploaded : p.shared.db.uploadsOf u.dpId ≠ []
  notReady : ∀ r ∈ p.shared.db.uploadsOf u.dpId, r.state ≠ .ready
  marked : phase = .invalidSize ∨ (phase = .sizeChecked ∨ phase = .ended) ∧
    ∀ r ∈ p.shared.db.uploadsOf u.dpId, r.state = .error

section Pool
variable {settings : Settings} {s s' : Server} {before after started : List Process}
  {t t' : Process} {a : Action} {u : Upload} {i : ℕ} {phase : UploadTaskPhase}

theorem invalidated_task {db : Database} {phase' : UploadTaskPhase} {schedules : List Schedule}
    (hmarked : onlyMarked u.dpId s (.uploadTask ⟨u, phase⟩) a = true)
    (hstep : UploadTaskStep settings s.db ⟨u, phase⟩ a db phase' schedules)
    (h : Invalidated u i phase ⟨s, before ++ .uploadTask ⟨u, phase⟩ :: after⟩)
    (hnew : (before ++ .uploadTask ⟨u, phase'⟩ :: after ++
      schedules.map Schedule.process)[i]? = some (.uploadTask ⟨u, phase'⟩)) :
    Invalidated u i phase' ⟨{ s with db := db }, before ++ .uploadTask ⟨u, phase'⟩ :: after ++
      schedules.map Schedule.process⟩ := by
  obtain ⟨-, halone, huploaded, hready, hphase⟩ := h
  have htotal := Pool.total_step (storesFor u.dpId) s { s with db := db } before after
    (schedules.map Schedule.process) (.uploadTask ⟨u, phase⟩) (.uploadTask ⟨u, phase'⟩)
  rw [halone] at htotal
  simp only [onlyMarked, forall_const, decide_eq_true_eq] at hmarked
  rcases hphase with rfl | ⟨rfl | rfl, herror⟩
  · cases hstep with
    | invalidate _ hok =>
      have hfails : OnlyFails u.dpId s.db db := .of_invalidateUpload hok
      refine ⟨hnew, ?_, hfails.ne_nil huploaded, hfails.not_ready hready, .inr ⟨.inl rfl, ?_⟩⟩
      · simp [storesFor, UploadTaskPhase.Storing] at htotal ⊢
        omega
      · rw [(Database.changesUploads_invalidateUpload hok).2]
        simp
    | setReady h => cases h
    | fail => exact absurd rfl (hmarked.1 rfl)
    | _ h => simp at h
  · cases hstep with
    | fail =>
      refine ⟨hnew, ?_, huploaded, hready, .inr ⟨.inr rfl, herror⟩⟩
      simp [storesFor, UploadTaskPhase.Storing, UploadTask.errorCallback] at htotal ⊢
      omega
    | setReady h => exact absurd rfl (hmarked.2 rfl)
    | _ h => simp at h
  · cases hstep with
    | setReady h => cases h
    | fail h => exact absurd rfl h
    | _ h => simp at h

theorem invalidated_step (hinserts : noNewUpload u.dpId s t a = true)
    (hmarked : onlyMarked u.dpId s t a = true) (hstep : ServiceStep settings s t a s' t' started)
    (h : Invalidated u i phase ⟨s, before ++ t :: after⟩) :
    ∃ phase', Invalidated u i phase' ⟨s', before ++ t' :: after ++ started⟩ := by
  rcases Pool.getElem?_step t' started h.task with ⟨rfl, hnew⟩ | ⟨hmem, hnew⟩
  · cases hstep with
    | @uploadTask _ _ db phase' schedules hstep =>
      exact ⟨phase', invalidated_task hmarked hstep h hnew⟩
  · obtain ⟨-, halone, huploaded, hready, hphase⟩ := h
    have hle := Pool.add_le_total (f := storesFor u.dpId) (s := s) (t := t) hmem
    have hself : storesFor u.dpId (.uploadTask ⟨u, phase⟩) = if phase.Storing then 1 else 0 := by
      simp [storesFor]
    have hstores : storesFor u.dpId t = 0 := by omega
    have hinserts : insertsFor s t a ≠ some u.dpId := of_decide_eq_true hinserts
    have hfails := onlyFails_of_step hstep hstores hinserts
    have htotal := Pool.total_step (storesFor u.dpId) s s' before after started t t'
    have hkeep : storesFor u.dpId t' + (started.map (storesFor u.dpId)).sum = 0 := by
      cases storeStep_of_step hstep u.dpId with
      | insert h => exact absurd h hinserts
      | store h => omega
      | keep h => omega
    refine ⟨phase, hnew, ?_, hfails.ne_nil huploaded, hfails.not_ready hready, ?_⟩
    · rw [← halone]
      omega
    · exact hphase.imp_right (And.imp_right hfails.errors)

end Pool
/-- The provider has no ready upload, and once the task has ended its upload is in error. -/
structure KeptInError (u : Upload) (i : ℕ) (p : Pool Server Process) : Prop where
  notReady : ∀ r ∈ p.shared.db.uploads, r.dp = u.dpId → r.state ≠ .ready
  ended : p.processes[i]? = some (.uploadTask ⟨u, .ended⟩) →
    (∃ r ∈ p.shared.db.uploads, r.dp = u.dpId) ∧
      ∀ r ∈ p.shared.db.uploads, r.dp = u.dpId → r.state = .error
  uncounted : ∀ projectId, p.shared.db.getNumberPartiesReady projectId =
    (p.shared.db.providerUploads projectId).countP fun r =>
      r.2.dp ≠ u.dpId ∧ r.1.uploaded = .done ∧ r.2.state = .ready

theorem Invalidated.keptInError {u : Upload} {i : ℕ} {phase : UploadTaskPhase}
    {p : Pool Server Process} (h : Invalidated u i phase p) : KeptInError u i p := by
  have hready : ∀ r ∈ p.shared.db.uploads, r.dp = u.dpId → r.state ≠ .ready := fun r hr hdp =>
    h.notReady r (Database.mem_uploadsOf.mpr ⟨hr, hdp⟩)
  refine ⟨hready, fun hended => ?_, fun projectId => ?_⟩
  · obtain rfl : phase = .ended := by
      have he := h.task.symm.trans hended
      simpa using he
    obtain ⟨r, hr⟩ := List.exists_mem_of_ne_nil _ h.uploaded
    obtain ⟨hmem, hdp⟩ := Database.mem_uploadsOf.mp hr
    refine ⟨⟨r, hmem, hdp⟩, fun r hr hdp => ?_⟩
    have hmarked := h.marked.resolve_left (by simp)
    exact hmarked.2 r (Database.mem_uploadsOf.mpr ⟨hr, hdp⟩)
  · unfold Database.getNumberPartiesReady
    refine List.countP_congr fun r hr => ?_
    have hmem : r.2 ∈ p.shared.db.uploads := by
      obtain ⟨d, -, hr⟩ := List.mem_flatMap.mp hr
      obtain ⟨row, hrow, rfl⟩ := List.mem_map.mp hr
      exact List.mem_of_mem_filter hrow
    simp only [decide_eq_true_eq]
    exact ⟨fun hc => ⟨fun hdp => hready r.2 hmem hdp hc.2, hc⟩, And.right⟩

section Reaches
variable {settings : Settings} {u : Upload} {i : ℕ} {p₀ p₁ p : Pool Server Process}

/-- The check of the encoding size is the last step before the task marks the upload. -/
theorem invalidated_check (htask : p₀.processes[i]? = some (.uploadTask ⟨u, .encodingsStored⟩))
    (hinvalid : Tasks.checkDataprovidersEncoding settings p₀.shared.db u.projectId u.size = false)
    (halone : p₀.total (storesFor u.dpId) = 1) (huploaded : p₀.shared.db.uploadsOf u.dpId ≠ [])
    (hready : ∀ r ∈ p₀.shared.db.uploadsOf u.dpId, r.state ≠ .ready)
    (hstep : p₀.step (service settings) i .proceed = some p₁) :
    Invalidated u i .invalidSize p₁ := by
  obtain ⟨before, t, after, s', t', started, hlist, rfl, hprogram, rfl⟩ :=
    Pool.step_eq_some.mp hstep
  have ht : t = .uploadTask ⟨u, .encodingsStored⟩ := by
    rw [hlist, List.getElem?_append_right le_rfl, Nat.sub_self] at htask
    simpa using htask
  subst ht
  have hproceed : service settings p₀.shared (.uploadTask ⟨u, .encodingsStored⟩) .proceed =
      some (p₀.shared, .uploadTask ⟨u, .invalidSize⟩, []) := by
    simp [service, UploadTask.step, UploadTask.proceed, hinvalid]
  obtain ⟨rfl, rfl, rfl⟩ : s' = p₀.shared ∧ t' = .uploadTask ⟨u, .invalidSize⟩ ∧ started = [] := by
    have he := hprogram.symm.trans hproceed
    simpa using he
  obtain ⟨s, processes⟩ := p₀
  obtain rfl : processes = before ++ .uploadTask ⟨u, .encodingsStored⟩ :: after := hlist
  refine ⟨by simp, ?_, huploaded, hready, .inl rfl⟩
  have htotal := Pool.total_step (storesFor u.dpId) s s before after []
    (.uploadTask ⟨u, .encodingsStored⟩) (.uploadTask ⟨u, .invalidSize⟩)
  rw [halone] at htotal
  simp [storesFor, UploadTaskPhase.Storing] at htotal ⊢
  omega

/-- An upload of an invalid encoding size stays in error as long as the transaction fails that
saves its encoding size and the state `ready`. -/
theorem keptInError_of_onlyMarked
    (htask : p₀.processes[i]? = some (.uploadTask ⟨u, .encodingsStored⟩))
    (hinvalid : Tasks.checkDataprovidersEncoding settings p₀.shared.db u.projectId u.size = false)
    (halone : p₀.total (storesFor u.dpId) = 1) (huploaded : p₀.shared.db.uploadsOf u.dpId ≠ [])
    (hready : ∀ r ∈ p₀.shared.db.uploadsOf u.dpId, r.state ≠ .ready)
    (hstep : p₀.step (service settings) i .proceed = some p₁)
    (h : Pool.Reaches (((service settings).restrict (noNewUpload u.dpId)).restrict
      (onlyMarked u.dpId)) p₁ p) : KeptInError u i p := by
  have hinit := invalidated_check htask hinvalid halone huploaded hready hstep
  have hinvariant : ∃ phase, Invalidated u i phase p := by
    refine h.invariant (I := fun p => ∃ phase, Invalidated u i phase p) ⟨_, hinit⟩ ?_
    rintro s before t after a s' t' started - ⟨phase, hphase⟩ hprogram
    obtain ⟨hmarked, hprogram⟩ := Program.restrict_eq_some.mp hprogram
    obtain ⟨hinserts, hprogram⟩ := Program.restrict_eq_some.mp hprogram
    exact invalidated_step hinserts hmarked (serviceStep_of_step hprogram) hphase
  obtain ⟨phase, hphase⟩ := hinvariant
  exact hphase.keptInError

end Reaches
/-- Encodings of more bytes than the deployment allows, stored and not checked yet. -/
def oversizedUpload : Upload := ⟨"p", 1, "x", 2, 1, 2000⟩

def oversizedStored : Pool Server Process where
  shared := { newServer with
    db := { Views.twoProjects with
      dataproviders := [⟨1, "a", .done, "p"⟩, ⟨2, "b", .notStarted, "p"⟩]
      uploads := [⟨1, "x", some (RAW_FILENAME_FMT "x"), .pending, none, 2, 1⟩] } }
  processes := [.uploadTask ⟨oversizedUpload, .encodingsStored⟩]

def oversizedChecked : Pool Server Process :=
  { oversizedStored with processes := [.uploadTask ⟨oversizedUpload, .invalidSize⟩] }

/-- The task raises when it saves the encoding size. -/
theorem keptInError_oversizedUpload : ∃ p,
    Pool.Reaches (((service Tasks.defaultSettings).restrict (noNewUpload 1)).restrict
      (onlyMarked 1)) oversizedChecked p ∧
    p.processes = [.uploadTask ⟨oversizedUpload, .ended⟩] ∧ KeptInError oversizedUpload 0 p := by
  have hrun : (oversizedChecked.run (((service Tasks.defaultSettings).restrict
      (noNewUpload 1)).restrict (onlyMarked 1)) [(0, .proceed), (0, .raise)]).any fun p =>
        p.processes = [.uploadTask ⟨oversizedUpload, .ended⟩] := by decide
  obtain ⟨p, hp, hprocesses⟩ := (Option.any_eq_true _ _).mp hrun
  have hreaches := Pool.reaches_of_run hp
  have hstep : oversizedStored.step (service Tasks.defaultSettings) 0 .proceed =
      some oversizedChecked := by rfl
  exact ⟨p, hreaches, of_decide_eq_true hprocesses,
    keptInError_of_onlyMarked rfl (by decide) (by decide) (by decide) (by decide) hstep hreaches⟩

/-- The task ends well, its upload is ready and its provider is counted. -/
theorem not_keptInError_oversizedUpload : ∃ p,
    Pool.Reaches ((service Tasks.defaultSettings).restrict (noNewUpload 1)) oversizedStored p ∧
      p.processes = [.uploadTask ⟨oversizedUpload, .ended⟩] ∧
      p.shared.db.getNumberPartiesReady "p" = 1 ∧ ¬ KeptInError oversizedUpload 0 p := by
  have hrun : (oversizedStored.run ((service Tasks.defaultSettings).restrict (noNewUpload 1))
      (List.replicate 4 (0, .proceed))).any fun p =>
        p.processes = [.uploadTask ⟨oversizedUpload, .ended⟩] ∧
        p.shared.db.getNumberPartiesReady "p" = 1 ∧
        ∃ r ∈ p.shared.db.uploads, r.dp = 1 ∧ r.state = .ready := by
    decide
  obtain ⟨p, hp, hquiet⟩ := (Option.any_eq_true _ _).mp hrun
  obtain ⟨hprocesses, hcounted, r, hr, hdp, hstate⟩ := of_decide_eq_true hquiet
  refine ⟨p, Pool.reaches_of_run hp, hprocesses, hcounted, fun h => ?_⟩
  exact h.notReady r hr hdp hstate

end EntityService.Service
