import EntityService.Tasks.RowGrowth

/-! The rows that are left of a project once it has been deleted. A row that is stored after the
statement that would delete it stays, and so do the rows of providers whose upload is not done. -/
namespace EntityService.Tasks.ProjectCleanup
open Lib Service Views

def removals (projectId : ProjectId) (processes : List SystemProcess) : List RemoveProject :=
  processes.filterMap fun t =>
    match t with
    | .removeProject r => if r.projectId = projectId then some r else none
    | _ => none

theorem mem_removals {projectId : ProjectId} {processes : List SystemProcess} {r : RemoveProject} :
    r ∈ removals projectId processes ↔
      .removeProject r ∈ processes ∧ r.projectId = projectId := by
  unfold removals
  rw [List.mem_filterMap]
  constructor
  · rintro ⟨t, ht, h⟩
    split at h
    case h_1 r' =>
      split_ifs at h with hid
      cases h
      exact ⟨ht, hid⟩
    case h_2 => cases h
  · rintro ⟨ht, hid⟩
    exact ⟨_, ht, if_pos hid⟩

/-- How many statements of `delete_project_data` have been executed, the last of which commits. -/
def RemovePhase.executed : RemovePhase → ℕ
  | .pending => 0
  | .settingStates _ => 0
  | .gathered => 1
  | .resultsDeleted => 2
  | .permutationsDeleted => 3
  | .masksDeleted => 4
  | _ => 5

/-- What is stored for these providers and runs is still deleted by a removal of the project. -/
def InTime (s : Storage) (projectId : ProjectId) (dpIds rows : List DpId)
    (grouped permuted : Option RunId) (r : RemoveProject) : Prop :=
  (1 ≤ r.phase.executed → ∀ dpId ∈ rows, dpId ∈ dpIds → dpId ∈ r.deleted.dpIds) ∧
  (2 ≤ r.phase.executed → ∀ runId ∈ grouped, ¬ s.RunOf projectId runId) ∧
  (∀ runId ∈ permuted, s.RunOf projectId runId → r.phase.executed < 4 ∧
    (3 ≤ r.phase.executed → ∀ dpId ∈ (s.getDataproviderIds projectId).take 2,
      dpId ∈ r.deleted.dpIds))

instance (s : Storage) (projectId : ProjectId) (dpIds rows : List DpId)
    (grouped permuted : Option RunId) (r : RemoveProject) :
    Decidable (InTime s projectId dpIds rows grouped permuted r) :=
  inferInstanceAs (Decidable (_ ∧ _))

/-- The removal of the project does not fail before it commits. It finds every provider done that
owns rows, and nothing is stored too late. -/
def leavesNothing (projectId : ProjectId) (dpIds : List DpId) (p : Pool Storage SystemProcess)
    (t : SystemProcess) (a : SystemAction) : Bool :=
  match t, a.action with
  | .removeProject r, .raise => r.projectId = projectId → r.phase.executed = 5
  | .removeProject r, .proceed => r.projectId = projectId → r.phase = .settingStates [] →
      ∀ dpId ∈ dpIds, p.shared.db.OwnsRows dpId → dpId ∈ p.shared.getDataproviderIds projectId
  | .service t, .proceed =>
    ∀ r ∈ removals projectId p.processes, InTime p.shared projectId dpIds
      (rowsFor p.shared.toServer t a.written) (storesGroups t) (storesPermutations t) r
  | _, _ => true

/-- Every run that a row of results refers to exists. -/
structure ForeignKeys (s : Storage) : Prop where
  runResults : ∀ r ∈ s.runResults, s.RunExists r.runId
  permutations : ∀ r ∈ s.permutations, s.RunExists r.run

/-- What a removal of the project has found and deleted so far. -/
structure Cleaned (projectId : ProjectId) (dpIds : List DpId) (s : Storage) (t : RemoveProject) :
    Prop where
  providers : 1 ≤ t.phase.executed → ∀ dpId ∈ dpIds, s.db.OwnsRows dpId → dpId ∈ t.deleted.dpIds
  results : 2 ≤ t.phase.executed → t.phase.executed < 5 → ∀ r ∈ s.runResults,
    s.RunOf projectId r.runId → s.runResults.count r ≤ t.deleted.runResults.count r
  permutations : 3 ≤ t.phase.executed → t.phase.executed < 5 → ∀ r ∈ s.permutations,
    s.RunOf projectId r.run → r.dp ∉ t.deleted.dpIds →
      s.permutations.count r ≤ t.deleted.permutations.count r
  masks : 4 ≤ t.phase.executed → t.phase.executed < 5 → ∀ r ∈ s.permutationMasks,
    r.project = projectId → s.permutationMasks.count r ≤ t.deleted.permutationMasks.count r
  noProvider : t.phase.executed = 5 → ∀ dpId ∈ t.deleted.dpIds,
    ¬ ProviderExists s.toServer dpId ∧ ¬ s.db.OwnsRows dpId
  noResult : t.phase.executed = 5 → ∀ r ∈ s.runResults, ¬ s.RunOf projectId r.runId
  noPermutation : t.phase.executed = 5 → ∀ r ∈ s.permutations, ¬ s.RunOf projectId r.run
  noMask : t.phase.executed = 5 → ∀ r ∈ s.permutationMasks, r.project ≠ projectId

section Cleaned
variable {s s' : Storage} {projectId : ProjectId} {dpIds rows : List DpId}
  {grouped permuted : Option RunId} {t : RemoveProject}

theorem ForeignKeys.step (h : ForeignKeys s) (hadds : Adds s s' rows grouped permuted) :
    ForeignKeys s' where
  runResults r hr := by
    refine hadds.runExists ?_
    rcases hadds.runResults r with hle | ⟨-, hexists⟩
    · have hpos := List.count_pos_iff.mpr hr
      exact h.runResults r (List.count_pos_iff.mp (lt_of_lt_of_le hpos hle))
    · exact hexists
  permutations r hr := by
    refine hadds.runExists ?_
    rcases hadds.permutations r with hle | ⟨-, _, ⟨row, hrow, -⟩, -⟩
    · have hpos := List.count_pos_iff.mpr hr
      exact h.permutations r (List.count_pos_iff.mp (lt_of_lt_of_le hpos hle))
    · exact Dict.mem_keys_of_get? hrow

/-- A step of another process, as long as what it stores is stored in time. -/
theorem Cleaned.step (h : Cleaned projectId dpIds s t) (hkeys : ForeignKeys s)
    (hadds : Adds s s' rows grouped permuted)
    (htime : InTime s projectId dpIds rows grouped permuted t) :
    Cleaned projectId dpIds s' t := by
  obtain ⟨hrows, hgroups, hpermuted⟩ := htime
  -- a row of results that is new is one that the step stores
  have hresult : 2 ≤ t.phase.executed → ∀ r ∈ s'.runResults, s'.RunOf projectId r.runId →
      r ∈ s.runResults ∧ s.RunOf projectId r.runId ∧
        s'.runResults.count r ≤ s.runResults.count r := by
    intro hphase r hr hrun
    rcases hadds.runResults r with hle | ⟨hgrouped, hexists⟩
    · have hmem := List.count_pos_iff.mp (lt_of_lt_of_le (List.count_pos_iff.mpr hr) hle)
      exact ⟨hmem, hadds.runOf (hkeys.runResults r hmem) hrun, hle⟩
    · exact absurd (hadds.runOf hexists hrun) (hgroups hphase r.runId hgrouped)
  have hpermutation : 3 ≤ t.phase.executed → ∀ r ∈ s'.permutations, s'.RunOf projectId r.run →
      r ∈ s.permutations ∧ s.RunOf projectId r.run ∧
          s'.permutations.count r ≤ s.permutations.count r ∨
        t.phase.executed < 4 ∧ r.dp ∈ t.deleted.dpIds := by
    intro hphase r hr hrun
    rcases hadds.permutations r with hle | ⟨hstored, p, ⟨row, hrow, rfl⟩, htake, -⟩
    · have hmem := List.count_pos_iff.mp (lt_of_lt_of_le (List.count_pos_iff.mpr hr) hle)
      exact .inl ⟨hmem, hadds.runOf (hkeys.permutations r hmem) hrun, hle⟩
    · have hbefore := hadds.runOf (Dict.mem_keys_of_get? hrow) hrun
      obtain ⟨hearly, hgathered⟩ := hpermuted r.run hstored hbefore
      obtain ⟨row', hrow', rfl⟩ := hbefore
      obtain rfl := Option.some.inj (hrow.symm.trans hrow')
      exact .inr ⟨hearly, hgathered hphase r.dp htake⟩
  have hmask : 4 ≤ t.phase.executed → ∀ r ∈ s'.permutationMasks, r.project = projectId →
      r ∈ s.permutationMasks ∧ s'.permutationMasks.count r ≤ s.permutationMasks.count r := by
    intro hphase r hr hproject
    rcases hadds.permutationMasks r with hle | ⟨hstored, hrun⟩
    · exact ⟨List.count_pos_iff.mp (lt_of_lt_of_le (List.count_pos_iff.mpr hr) hle), hle⟩
    · have hearly := (hpermuted r.run hstored (hproject ▸ hrun)).1
      omega
  constructor
  · intro hphase dpId hdp howns
    rcases hadds.owns dpId howns with howns | ⟨hnew, -⟩
    · exact h.providers hphase dpId hdp howns
    · exact hrows hphase dpId hnew hdp
  · intro hphase hopen r hr hrun
    obtain ⟨hmem, hbefore, hle⟩ := hresult hphase r hr hrun
    exact le_trans hle (h.results hphase hopen r hmem hbefore)
  · intro hphase hopen r hr hrun hdp
    rcases hpermutation hphase r hr hrun with ⟨hmem, hbefore, hle⟩ | ⟨-, hgathered⟩
    · exact le_trans hle (h.permutations hphase hopen r hmem hbefore hdp)
    · exact absurd hgathered hdp
  · intro hphase hopen r hr hproject
    obtain ⟨hmem, hle⟩ := hmask hphase r hr hproject
    exact le_trans hle (h.masks hphase hopen r hmem hproject)
  · intro hphase dpId hdp
    obtain ⟨hexists, howns⟩ := h.noProvider hphase dpId hdp
    refine ⟨fun hexists' => hexists (hadds.providers dpId hexists'), fun howns' => ?_⟩
    rcases hadds.owns dpId howns' with howns' | ⟨-, hexists'⟩
    · exact howns howns'
    · exact hexists hexists'
  · intro hphase r hr hrun
    obtain ⟨hmem, hbefore, -⟩ := hresult (by omega) r hr hrun
    exact h.noResult hphase r hmem hbefore
  · intro hphase r hr hrun
    rcases hpermutation (by omega) r hr hrun with ⟨hmem, hbefore, -⟩ | ⟨hearly, -⟩
    · exact h.noPermutation hphase r hmem hbefore
    · omega
  · intro hphase r hr hproject
    exact h.noMask hphase r (hmask (by omega) r hr hproject).1 hproject

/-- Nothing is claimed before the providers have been gathered. -/
theorem Cleaned.of_not_gathered (h : t.phase.executed = 0) : Cleaned projectId dpIds s t := by
  constructor
  all_goals
    intro hphase
    omega

theorem Cleaned.congr {t' : RemoveProject} (h : Cleaned projectId dpIds s t)
    (hexecuted : t'.phase.executed = t.phase.executed) (hdeleted : t'.deleted = t.deleted) :
    Cleaned projectId dpIds s t' := by
  constructor
  all_goals simp only [hexecuted, hdeleted]
  · exact h.providers
  · exact h.results
  · exact h.permutations
  · exact h.masks
  · exact h.noProvider
  · exact h.noResult
  · exact h.noPermutation
  · exact h.noMask

/-- A statement that finds the rows of the project, whose deletion it leaves to the commit. -/
theorem count_filter_le {α : Type} [BEq α] [LawfulBEq α] {p : α → Prop} [DecidablePred p]
    {l : List α} {r : α} (hr : p r) : l.count r ≤ (l.filter fun r => p r).count r := by
  rw [List.count_filter (by simpa using hr)]

theorem not_mem_diff {α : Type} [BEq α] [LawfulBEq α] {l l' : List α} {r : α}
    (h : r ∈ l → l.count r ≤ l'.count r) : r ∉ l.diff l' := by
  intro hr
  have hpos := List.count_pos_iff.mpr hr
  have hle := h (List.diff_subset _ _ hr)
  rw [List.count_diff] at hpos
  omega

theorem Cleaned.self {a : Action} {t' : RemoveProject} {started : List SystemProcess}
    (h : Cleaned projectId dpIds s t) (hid : t.projectId = projectId)
    (hgather : a = .proceed → t.phase = .settingStates [] → ∀ dpId ∈ dpIds, s.db.OwnsRows dpId →
      dpId ∈ s.getDataproviderIds projectId)
    (hfail : a = .raise → t.phase.executed = 5) (hstep : RemoveStep s t a s' t' started) :
    Cleaned projectId dpIds s' t' := by
  subst hid
  cases hstep with
  | begin => exact .of_not_gathered rfl
  | setState => exact .of_not_gathered rfl
  | gather hphase =>
    refine ⟨fun _ => hgather rfl hphase, ?_, ?_, ?_, ?_, ?_, ?_, ?_⟩
    all_goals
      intro hexecuted
      simp [RemovePhase.executed] at hexecuted
  | deleteResults hphase =>
    refine ⟨fun _ => h.providers (by rw [hphase]; exact le_rfl),
      fun _ _ r _ hrun => count_filter_le hrun, ?_, ?_, ?_, ?_, ?_, ?_⟩
    all_goals
      intro hexecuted
      simp [RemovePhase.executed] at hexecuted
  | deletePermutations hphase =>
    have hexecuted : t.phase.executed = 2 := by rw [hphase]; rfl
    refine ⟨fun _ => h.providers (by omega), fun _ _ => h.results (by omega) (by omega),
      fun _ _ r _ hrun _ => count_filter_le hrun, ?_, ?_, ?_, ?_, ?_⟩
    all_goals
      intro hexecuted
      simp [RemovePhase.executed] at hexecuted
  | deleteMasks hphase =>
    have hexecuted : t.phase.executed = 3 := by rw [hphase]; rfl
    refine ⟨fun _ => h.providers (by omega), fun _ _ => h.results (by omega) (by omega),
      fun _ _ => h.permutations (by omega) (by omega),
      fun _ _ r _ hproject => count_filter_le hproject, ?_, ?_, ?_, ?_⟩
    all_goals
      intro hexecuted
      simp [RemovePhase.executed] at hexecuted
  | commit hphase =>
    have hexecuted : t.phase.executed = 4 := by rw [hphase]; rfl
    have hopen : ¬ 5 < 5 := lt_irrefl 5
    refine ⟨fun _ dpId hdp howns => ?_, fun _ hlt => absurd hlt hopen,
      fun _ hlt => absurd hlt hopen,
      fun _ hlt => absurd hlt hopen, fun _ dpId hdp => ?_, fun _ r hr hrun => ?_,
      fun _ r hr hrun => ?_, fun _ r hr hproject => ?_⟩
    · exact h.providers (by omega) dpId hdp (ownsRows_deleteDataproviders howns).1
    · exact ⟨fun hexists => (providerExists_commitDeleted hexists).2 hdp,
        fun howns => (ownsRows_deleteDataproviders howns).2 hdp⟩
    · exact not_mem_diff (fun hmem => h.results (by omega) (by omega) r hmem hrun) hr
    · obtain ⟨hr, hdp⟩ := List.mem_filter.mp hr
      exact not_mem_diff (fun hmem => h.permutations (by omega) (by omega) r hmem hrun
        (of_decide_eq_true hdp)) hr
    · exact not_mem_diff (fun hmem => h.masks (by omega) (by omega) r hmem hproject) hr
  | gatherObjects hphase => exact h.congr (by rw [hphase]; rfl) rfl
  | finish hphase => exact h.congr (by rw [hphase]; rfl) rfl
  | fail => exact h.congr (hfail rfl).symm rfl

theorem inTime_nothing : InTime s projectId dpIds [] none none t := by
  refine ⟨fun _ dpId h => ?_, fun _ runId h => ?_, fun runId h => ?_⟩ <;> cases h

end Cleaned

section Step
variable {settings : Settings} {s s' : Storage} {before after : List SystemProcess}
  {t t' : SystemProcess} {a : SystemAction} {started : List SystemProcess}
  {projectId : ProjectId} {dpIds : List DpId}

theorem adds_step (hok : leavesNothing projectId dpIds ⟨s, before ++ t :: after⟩ t a = true)
    (hstep : SystemStep settings s t a.action s' t' started) :
    ∃ rows grouped permuted, Adds s s' rows grouped permuted ∧
      ∀ r ∈ removals projectId (before ++ t :: after),
        InTime s projectId dpIds rows grouped permuted r := by
  have hnothing : Adds s s' [] none none → ∃ rows grouped permuted,
      Adds s s' rows grouped permuted ∧ ∀ r ∈ removals projectId (before ++ t :: after),
        InTime s projectId dpIds rows grouped permuted r :=
    fun hadds => ⟨[], none, none, hadds, fun r _ => inTime_nothing⟩
  generalize ha : a.action = action at hstep
  cases hstep with
  | @service t t' _ server _ started hstep hkey hstores hproceed =>
    by_cases hp : action = .proceed
    · subst hp
      unfold leavesNothing at hok
      rw [ha] at hok
      exact ⟨_, _, _, adds_service a.written hstep hkey hstores, of_decide_eq_true hok⟩
    · rw [hproceed hp] at hnothing ⊢
      have hnone := insertsFor_of_ne_proceed (t := t) (s := s.toServer) hp
      exact hnothing (adds_server hstep hkey fun dpId h => by rw [hnone] at h; cases h)
  | projectDelete hstep =>
    cases hstep with
    | mark =>
      exact hnothing (.of_removes (fun _ h => h) (fun _ h => h) rfl (.refl _) (.refl _) (.refl _))
    | _ => exact hnothing (.refl s)
  | removeProject hstep =>
    cases hstep with
    | setState =>
      exact hnothing (.of_removes (fun _ h => h) (fun _ h => h) rfl (.refl _) (.refl _) (.refl _))
    | commit => exact hnothing (adds_commitDeleted _)
    | _ => exact hnothing (.refl s)
  | deleteObjects =>
    exact hnothing (.of_removes (fun _ h => h) (fun _ h => h) rfl (.refl _) (.refl _) (.refl _))

theorem removeStep_projectId {t t' : RemoveProject} {a : Action}
    (hstep : RemoveStep s t a s' t' started) : t'.projectId = t.projectId := by
  cases hstep <;> rfl

theorem removal_started (hstep : SystemStep settings s t a.action s' t' started) {r : RemoveProject}
    (hr : .removeProject r ∈ started) : r.phase = .pending := by
  generalize a.action = action at hstep
  cases hstep with
  | service => simp at hr
  | projectDelete =>
    split_ifs at hr
    · cases List.mem_singleton.mp hr
      rfl
    · cases hr
  | removeProject hstep =>
    cases hstep with
    | finish => cases List.mem_singleton.mp hr
    | _ => cases hr
  | deleteObjects => cases hr

theorem cleaned_step (hok : leavesNothing projectId dpIds ⟨s, before ++ t :: after⟩ t a = true)
    (hstep : SystemStep settings s t a.action s' t' started) (hkeys : ForeignKeys s)
    (h : ∀ r ∈ removals projectId (before ++ t :: after), Cleaned projectId dpIds s r) :
    ∀ r ∈ removals projectId (before ++ t' :: after ++ started),
      Cleaned projectId dpIds s' r := by
  obtain ⟨rows, grouped, permuted, hadds, htime⟩ := adds_step hok hstep
  have hprocesses : ∀ u ∈ before ++ t' :: after ++ started, ∀ r, u = .removeProject r →
      r.projectId = projectId → Cleaned projectId dpIds s' r := by
    refine Pool.forall_step (t := t) (P := fun u => ∀ r, u = .removeProject r →
        r.projectId = projectId → r ∈ removals projectId (before ++ t :: after)) ?_ ?_ ?_ ?_
    · rintro u hu r rfl hid
      exact mem_removals.mpr ⟨hu, hid⟩
    · intro u _ hu r hr hid
      have hmem := hu r hr hid
      exact (h r hmem).step hkeys hadds (htime r hmem)
    · rintro hself r' rfl hid
      generalize ha : a.action = action at hstep
      cases hstep with
      | @removeProject r _ _ _ _ hstep =>
        have hsame := removeStep_projectId hstep
        have hmem := hself r rfl (hsame ▸ hid)
        refine (h r hmem).self (hsame ▸ hid) ?_ ?_ hstep
        · rintro rfl hphase
          unfold leavesNothing at hok
          rw [ha] at hok
          exact of_decide_eq_true hok (hsame ▸ hid) hphase
        · rintro rfl
          unfold leavesNothing at hok
          rw [ha] at hok
          exact of_decide_eq_true hok (hsame ▸ hid)
    · rintro u hu r rfl -
      exact .of_not_gathered (by rw [removal_started hstep hu]; rfl)
  intro r hr
  obtain ⟨hmem, hid⟩ := mem_removals.mp hr
  exact hprocesses _ hmem r rfl hid

/-- The project is removed, or has been, once a request to delete it has been accepted. -/
theorem removals_step (hstep : SystemStep settings s t a.action s' t' started)
    (h : ∀ r, .projectDelete r ∈ before ++ t :: after → r.projectId = projectId →
      r.phase = .accepted → removals projectId (before ++ t :: after) ≠ []) :
    ∀ r, .projectDelete r ∈ before ++ t' :: after ++ started → r.projectId = projectId →
      r.phase = .accepted → removals projectId (before ++ t' :: after ++ started) ≠ [] := by
  have hkeep : removals projectId (before ++ t :: after) ≠ [] →
      removals projectId (before ++ t' :: after ++ started) ≠ [] := by
    intro hne
    obtain ⟨r, hr⟩ := List.exists_mem_of_ne_nil _ hne
    obtain ⟨hmem, hid⟩ := mem_removals.mp hr
    obtain ⟨i, hi⟩ := List.getElem?_of_mem hmem
    rcases Pool.getElem?_step t' started hi with ⟨rfl, hi'⟩ | ⟨-, hi'⟩
    · generalize a.action = action at hstep
      cases hstep with
      | removeProject hstep =>
        have hsame := removeStep_projectId hstep
        exact List.ne_nil_of_mem (mem_removals.mpr ⟨List.mem_of_getElem? hi', hsame.trans hid⟩)
    · exact List.ne_nil_of_mem (mem_removals.mpr ⟨List.mem_of_getElem? hi', hid⟩)
  have hprocesses : ∀ u ∈ before ++ t' :: after ++ started, ∀ r, u = .projectDelete r →
      r.projectId = projectId → r.phase = .accepted →
        removals projectId (before ++ t' :: after ++ started) ≠ [] := by
    refine Pool.forall_step (t := t) (P := fun u => ∀ r, u = .projectDelete r →
      r.projectId = projectId → r.phase = .accepted →
        removals projectId (before ++ t :: after) ≠ []) ?_ ?_ ?_ ?_
    · exact fun u hu r hr => h r (hr ▸ hu)
    · exact fun u _ hu r hr hid hphase => hkeep (hu r hr hid hphase)
    · rintro - r rfl hid hphase
      generalize a.action = action at hstep
      cases hstep with
      | @projectDelete r _ _ phase removes hstep =>
        cases hstep with
        | check hcheck => exact absurd hphase hcheck.2
        | accept =>
          exact List.ne_nil_of_mem (mem_removals.mpr
            ⟨List.mem_append_right _ (List.mem_singleton_self _), hid⟩)
        | mark => cases hphase
        | fail => cases hphase
    · rintro u hu r rfl
      exact absurd hu (started_ne_projectDelete hstep r)
  exact fun r hr => hprocesses _ hr r rfl

end Step

/-- The tables hold no row that belongs to the project, whose providers have these ids. -/
structure NoRows (projectId : ProjectId) (dpIds : List DpId) (s : Storage) : Prop where
  encodings : ∀ r ∈ s.db.encodings, r.dp ∉ dpIds
  encodingblocks : ∀ r ∈ s.db.encodingblocks, r.dp ∉ dpIds
  blocks : ∀ r ∈ s.db.blocks, r.dp ∉ dpIds
  uploads : ∀ r ∈ s.db.uploads, r.dp ∉ dpIds
  runResults : ∀ r ∈ s.runResults, ¬ s.RunOf projectId r.runId
  permutations : ∀ r ∈ s.permutations, ¬ s.RunOf projectId r.run
  permutationMasks : ∀ r ∈ s.permutationMasks, r.project ≠ projectId

theorem Cleaned.noRows {projectId : ProjectId} {dpIds : List DpId} {s : Storage} {t : RemoveProject}
    (h : Cleaned projectId dpIds s t) (hphase : t.phase.executed = 5) :
    NoRows projectId dpIds s := by
  have hnone : ∀ dpId ∈ dpIds, ¬ s.db.OwnsRows dpId := by
    intro dpId hdp howns
    exact (h.noProvider hphase dpId (h.providers (by omega) dpId hdp howns)).2 howns
  refine ⟨fun r hr hdp => ?_, fun r hr hdp => ?_, fun r hr hdp => ?_, fun r hr hdp => ?_,
    h.noResult hphase, h.noPermutation hphase, h.noMask hphase⟩
  · exact hnone r.dp hdp (.inr (.inr (.inl (List.mem_map_of_mem hr))))
  · exact hnone r.dp hdp (.inr (.inr (.inr (List.mem_map_of_mem hr))))
  · exact hnone r.dp hdp (.inr (.inl (List.mem_map_of_mem hr)))
  · exact hnone r.dp hdp (.inl (List.mem_map_of_mem hr))

def OfProject (s : Storage) (projectId : ProjectId) : SystemProcess → Prop
  | .service (.request r) => r.upload.projectId = projectId
  | .service (.uploadTask t) => t.upload.projectId = projectId
  | .service (.post p) => p.projectId = projectId
  | .service (.check c) => c.projectId = projectId
  | .service (.runTask t) => ∃ runId ∈ t.run, s.RunOf projectId runId
  | .projectDelete r => r.projectId = projectId
  | .removeProject t => t.projectId = projectId
  | .deleteMinioObjects p _ _ => p = projectId

/-- The request has been answered, or the task has returned or failed. -/
def SystemProcess.Ended : SystemProcess → Bool
  | .service t => t.Ended
  | .projectDelete r => r.phase = .accepted ∨ r.phase = .refused
  | .removeProject t => t.phase = .ended ∨ t.phase = .failed
  | .deleteMinioObjects _ _ ended => ended

/-- What is kept while the project is being deleted. -/
structure Cleaning (projectId : ProjectId) (dpIds : List DpId) (p : Pool Storage SystemProcess) :
    Prop where
  keys : ForeignKeys p.shared
  cleaned : ∀ r ∈ removals projectId p.processes, Cleaned projectId dpIds p.shared r
  scheduled : ∀ r, .projectDelete r ∈ p.processes → r.projectId = projectId →
    r.phase = .accepted → removals projectId p.processes ≠ []

theorem cleaning_of_reaches {settings : Settings} {projectId : ProjectId} {dpIds : List DpId}
    {p₀ p : Pool Storage SystemProcess} (hinit : Cleaning projectId dpIds p₀)
    (h : Pool.ReachesIf (system settings) (leavesNothing projectId dpIds) p₀ p) :
    Cleaning projectId dpIds p := by
  refine h.invariant (I := Cleaning projectId dpIds) hinit ?_
  rintro s before t after a s' t' started hok hcleaning hprogram
  have hstep := systemStep_of_step hprogram
  obtain ⟨rows, grouped, permuted, hadds, -⟩ := adds_step hok hstep
  exact ⟨hcleaning.keys.step hadds, cleaned_step hok hstep hcleaning.keys hcleaning.cleaned,
    removals_step hstep hcleaning.scheduled⟩

def providersOf (s : Storage) (projectId : ProjectId) : List DpId :=
  (s.db.dataproviders.filter fun d => d.project = projectId).map DataproviderRow.id

/-- Once its deletion is accepted and nothing of the project is pending, no row of it is left, in a
run in which nothing is stored too late and no provider with rows is passed over. -/
theorem noRows_of_leavesNothing {settings : Settings} {projectId : ProjectId}
    {p₀ p : Pool Storage SystemProcess} (hkeys : ForeignKeys p₀.shared)
    (hinit : removals projectId p₀.processes = [])
    (hrequests : ∀ r, .projectDelete r ∈ p₀.processes → r.projectId = projectId →
      r.phase ≠ .accepted)
    (h : Pool.ReachesIf (system settings)
      (leavesNothing projectId (providersOf p₀.shared projectId)) p₀ p)
    (haccepted : ∃ r, .projectDelete r ∈ p.processes ∧ r.projectId = projectId ∧
      r.phase = .accepted)
    (hquiet : ∀ t ∈ p.processes, OfProject p.shared projectId t → t.Ended = true) :
    NoRows projectId (providersOf p₀.shared projectId) p.shared := by
  have hcleaning₀ : Cleaning projectId (providersOf p₀.shared projectId) p₀ := by
    refine ⟨hkeys, fun r hr => ?_, fun r hr hid hphase => absurd hphase (hrequests r hr hid)⟩
    rw [hinit] at hr
    cases hr
  have hcleaning := cleaning_of_reaches hcleaning₀ h
  obtain ⟨r, hr, hid, hphase⟩ := haccepted
  obtain ⟨t, ht⟩ := List.exists_mem_of_ne_nil _ (hcleaning.scheduled r hr hid hphase)
  obtain ⟨hmem, hproject⟩ := mem_removals.mp ht
  refine (hcleaning.cleaned t ht).noRows ?_
  have hended := of_decide_eq_true (hquiet _ hmem hproject)
  rcases hended with hended | hended <;> rw [hended] <;> rfl

/-- Two providers whose uploads are in these states, each with its rows, and a run with groups. -/
def storedProject (state : UploadedState) : Storage where
  db := {
    projects := [⟨"p", none, none, 2, .groups, false, false⟩]
    dataproviders := [⟨1, "a", .done, "p"⟩, ⟨2, "b", state, "p"⟩]
    uploads := [⟨1, "x", none, .ready, some 8, 1, 1⟩, ⟨2, "y", none, .error, some 8, 1, 1⟩]
    blocks := [⟨1, ['1'], 1, 1, .ready⟩, ⟨2, ['1'], 2, 1, .pending⟩]
    encodings := [⟨1, [0], 1⟩, ⟨2, [0], 2⟩]
    encodingblocks := [⟨1, 0, 1, 1⟩, ⟨2, 0, 2, 2⟩]
    nextBlockId := 3 }
  runs := Dict.empty.set "r" ⟨"p", .completed, 3, .default, false⟩
  cache := Dict.empty
  accessTokens := Dict.empty.set "p" "t"
  runResults := [⟨"r", [[(0, 0), (1, 0)]]⟩]
  similarityScores := []
  permutations := []
  permutationMasks := []
  objects := Dict.empty

def deletedProject (state : UploadedState) : Pool Storage SystemProcess where
  shared := storedProject state
  processes := [.projectDelete ⟨"p", some "t", .received⟩]

/-- The request, the removal that it schedules and the removal of the objects. -/
def wholeDeletion : List (ℕ × SystemAction) :=
  proceedAll [0, 0, 0, 0, 1, 1, 1, 1, 1, 1, 1, 1, 1, 2]

theorem noRows_deletedProject : ∃ p,
    Pool.ReachesIf (system defaultSettings)
      (leavesNothing "p" (providersOf (storedProject .done) "p")) (deletedProject .done) p ∧
      .projectDelete ⟨"p", some "t", .accepted⟩ ∈ p.processes ∧
      NoRows "p" (providersOf (storedProject .done) "p") p.shared := by
  have hrun : ((deletedProject .done).runIf (system defaultSettings)
      (leavesNothing "p" (providersOf (storedProject .done) "p")) wholeDeletion).any fun p =>
        .projectDelete ⟨"p", some "t", .accepted⟩ ∈ p.processes ∧
          ∀ t ∈ p.processes, t.Ended = true := by decide
  obtain ⟨p, hp, hended⟩ := (Option.any_eq_true _ _).mp hrun
  obtain ⟨haccepted, hended⟩ := of_decide_eq_true hended
  have hreaches := Pool.reachesIf_of_runIf hp
  have hkeys : ForeignKeys (deletedProject .done).shared := ⟨by decide, by decide⟩
  have hrequests : ∀ r, .projectDelete r ∈ (deletedProject .done).processes →
      r.projectId = "p" → r.phase ≠ .accepted := by
    intro r hr _ hphase
    cases List.mem_singleton.mp hr
    cases hphase
  have hid : (⟨"p", some "t", .accepted⟩ : DeleteRequest).projectId = "p" := rfl
  exact ⟨p, hreaches, haccepted, noRows_of_leavesNothing hkeys rfl hrequests hreaches
    ⟨_, haccepted, hid, rfl⟩ fun t ht _ => hended t ht⟩

/-- The rows of a provider whose upload has failed are still there when everything has ended. -/
theorem not_noRows_deletedProject : ∃ p,
    Pool.Reaches (system defaultSettings) (deletedProject .error) p ∧
      .projectDelete ⟨"p", some "t", .accepted⟩ ∈ p.processes ∧
      (∀ t ∈ p.processes, t.Ended = true) ∧
      ¬ NoRows "p" (providersOf (storedProject .error) "p") p.shared := by
  have hrun : ((deletedProject .error).run (system defaultSettings) wholeDeletion).any fun p =>
        .projectDelete ⟨"p", some "t", .accepted⟩ ∈ p.processes ∧
          (∀ t ∈ p.processes, t.Ended = true) ∧ ∃ r ∈ p.shared.db.encodings, r.dp = 2 := by decide
  obtain ⟨p, hp, hleft⟩ := (Option.any_eq_true _ _).mp hrun
  obtain ⟨haccepted, hended, r, hr, hdp⟩ := of_decide_eq_true hleft
  refine ⟨p, Pool.reaches_of_run hp, haccepted, hended, fun h => h.encodings r hr ?_⟩
  rw [hdp]
  decide

end EntityService.Tasks.ProjectCleanup
