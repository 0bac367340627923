import EntityService.Models.Deleted
import EntityService.Tasks.RowGrowth

/-! A run that a client has deleted is gone, and what its own tasks still do cannot bring it or any
of its results back. The id of a run is drawn at random, so no two requests are taken to insert a
run with the same id. -/
namespace EntityService.Models
open Lib Service Views Tasks.ProjectCleanup

/-- A request to insert a run with the id. -/
def posts (runId : RunId) : DeployedProcess → ℕ
  | .system (.service (.post p)) => if p.runId = runId then 1 else 0
  | _ => 0

/-- A request that has not come to inserting it. -/
def pendingPosts (runId : RunId) : DeployedProcess → ℕ
  | .system (.service (.post p)) => if p.runId = runId ∧ p.phase = .pending then 1 else 0
  | _ => 0

/-- A run with the id has been inserted, or has not been for an error. -/
def Drawn (runId : RunId) (pool : Pool Storage DeployedProcess) : Prop :=
  pool.total (pendingPosts runId) < pool.total (posts runId)

/-- No row of the database is that of the run or refers to it. -/
structure Gone (s : Storage) (runId : RunId) : Prop where
  run : s.runs.get? runId = none
  runResults : ∀ r ∈ s.runResults, r.runId ≠ runId
  similarityScores : ∀ r ∈ s.similarityScores, r.1 ≠ runId
  permutations : ∀ r ∈ s.permutations, r.run ≠ runId
  permutationMasks : ∀ r ∈ s.permutationMasks, r.run ≠ runId

def RunDelete.HasFound (r : RunDelete) : Prop :=
  r.phase ≠ .received ∧ r.phase ≠ .refused ∧ r.phase ≠ .failed

def RunDelete.HasDeleted (r : RunDelete) : Prop :=
  r.phase = .answered ∨ ∃ similarityFile, r.phase = .deleted similarityFile

theorem RunDelete.HasDeleted.hasFound {r : RunDelete} (h : r.HasDeleted) : r.HasFound := by
  rcases h with h | ⟨file, h⟩ <;> simp [RunDelete.HasFound, h]

section Posts
variable {settings : Settings} {s s' : Storage} {t t' : DeployedProcess}
  {started : List DeployedProcess} {runId : RunId}

theorem pendingPosts_le (runId : RunId) (t : DeployedProcess) :
    pendingPosts runId t ≤ posts runId t := by
  unfold pendingPosts posts
  split
  · split_ifs with hpending hid
    · exact le_rfl
    · exact absurd hpending.1 hid
    · exact Nat.zero_le _
    · exact le_rfl
  · exact le_rfl

theorem posts_started (hstep : DeployedStep settings s t s' t' started) :
    ∀ u ∈ started, posts runId u = 0 := by
  intro u hu
  cases hstep with
  | system hstep =>
    obtain ⟨v, hv, rfl⟩ := List.mem_map.mp hu
    have hsystem := systemStep_of_step hstep
    cases hsystem with
    | service hservice =>
      obtain ⟨w, hw, rfl⟩ := List.mem_map.mp hv
      have hscheduled := scheduled_of_step hservice w hw
      cases w with
      | post => cases hscheduled
      | _ => rfl
    | projectDelete =>
      split_ifs at hv
      · obtain rfl := List.mem_singleton.mp hv
        rfl
      · cases hv
    | removeProject hremove =>
      generalize SystemAction.action _ = action at hremove
      cases hremove with
      | finish =>
        obtain rfl := List.mem_singleton.mp hv
        rfl
      | _ => cases hv
    | deleteObjects => cases hv
  | runDelete =>
    obtain ⟨files, -, rfl⟩ := Option.map_eq_some_iff.mp (Option.mem_toList.mp hu)
    rfl

/-- A request stays one, and what it has inserted it does not insert again. -/
theorem posts_step (runId : RunId) (hstep : DeployedStep settings s t s' t' started) :
    posts runId t' = posts runId t ∧ pendingPosts runId t' ≤ pendingPosts runId t := by
  cases hstep with
  | system hstep =>
    have hsystem := systemStep_of_step hstep
    cases hsystem with
    | service hservice =>
      cases hservice with
      | post hpost =>
        refine ⟨rfl, ?_⟩
        unfold pendingPosts
        dsimp only
        generalize SystemAction.action _ = action at hpost
        cases hpost with
        | insert | notify | fail => split_ifs <;> simp_all
      | _ => exact ⟨rfl, le_rfl⟩
    | _ => exact ⟨rfl, le_rfl⟩
  | runDelete => exact ⟨rfl, le_rfl⟩

theorem total_posts_step (runId : RunId) (before after : List DeployedProcess)
    (hstep : DeployedStep settings s t s' t' started) :
    (⟨s', before ++ t' :: after ++ started⟩ : Pool Storage DeployedProcess).total (posts runId) =
        (⟨s, before ++ t :: after⟩ : Pool Storage DeployedProcess).total (posts runId) ∧
      (⟨s', before ++ t' :: after ++ started⟩ : Pool Storage DeployedProcess).total
          (pendingPosts runId) ≤
        (⟨s, before ++ t :: after⟩ : Pool Storage DeployedProcess).total (pendingPosts runId) := by
  have hzero : (started.map (posts runId)).sum = 0 := by
    apply List.sum_eq_zero
    intro n hn
    obtain ⟨u, hu, rfl⟩ := List.mem_map.mp hn
    exact posts_started hstep u hu
  have hpending : (started.map (pendingPosts runId)).sum ≤ (started.map (posts runId)).sum :=
    List.sum_le_sum fun u _ => pendingPosts_le runId u
  obtain ⟨hsame, hle⟩ := posts_step runId hstep
  have htotal := Pool.total_step (posts runId) s s' before after started t t'
  have htotal' := Pool.total_step (pendingPosts runId) s s' before after started t t'
  constructor
  · omega
  · omega

/-- A request that has inserted its run is one of those that were sent. -/
theorem drawn_of_mem {pool : Pool Storage DeployedProcess} (h : t ∈ pool.processes)
    (hlt : pendingPosts runId t < posts runId t) : Drawn runId pool :=
  List.sum_lt_sum _ _ (fun u _ => pendingPosts_le runId u) ⟨t, h, hlt⟩

theorem Drawn.pendingPosts_eq_zero {pool : Pool Storage DeployedProcess} (h : Drawn runId pool)
    (hone : pool.total (posts runId) ≤ 1) (ht : t ∈ pool.processes) :
    pendingPosts runId t = 0 := by
  have hle := Pool.le_total (f := pendingPosts runId) ht
  have hlt : pool.total (pendingPosts runId) < pool.total (posts runId) := h
  omega

/-- A row is inserted by a request to insert it, and by nothing else. -/
theorem get?_serviceStep {server server' : Server} {t t' : Process} {a : Service.Action}
    {started : List Process} (hstep : ServiceStep settings server t a server' t' started)
    (h : server.runs.get? runId = none) : server'.runs.get? runId = none ∨
      0 < pendingPosts runId (.system (.service t)) ∧
        pendingPosts runId (.system (.service t')) < posts runId (.system (.service t')) := by
  have hrow := rowStep_of_step hstep runId
  rw [h] at hrow
  generalize server'.runs.get? runId = row at hrow
  cases hrow with
  | same => exact .inl rfl
  | missing => exact .inl rfl
  | @post p project ht ht' hid =>
    subst ht
    cases hstep with
    | post hpost =>
      cases hpost with
      | insert hphase =>
        right
        constructor
        · simp [pendingPosts, hid, hphase]
        · simp [pendingPosts, posts, hid]
      | _ => cases ht'

theorem get?_deleteRunData (h : s.runs.get? runId = none) (r : RunId) :
    (s.deleteRunData r).runs.get? runId = none := by
  show (s.runs.erase r).get? runId = none
  by_cases hid : runId = r
  · rw [hid]
    exact Dict.get?_erase_self _ _
  · rw [Dict.get?_erase_of_ne _ hid]
    exact h

theorem get?_step (hstep : DeployedStep settings s t s' t' started)
    (h : s.runs.get? runId = none) : s'.runs.get? runId = none ∨
      0 < pendingPosts runId t ∧ pendingPosts runId t' < posts runId t' := by
  cases hstep with
  | system hsystem =>
    have hsystem := systemStep_of_step hsystem
    cases hsystem with
    | service hservice _ hstores =>
      rw [hstores.sameTables.runs]
      exact get?_serviceStep hservice h
    | projectDelete hdelete =>
      generalize SystemAction.action _ = action at hdelete
      cases hdelete <;> exact .inl h
    | removeProject hremove =>
      generalize SystemAction.action _ = action at hremove
      cases hremove <;> exact .inl h
    | deleteObjects => exact .inl h
  | runDelete hdelete =>
    cases hdelete with
    | delete => exact .inl (get?_deleteRunData h _)
    | _ => exact .inl h

end Posts

section Gone
variable {settings : Settings} {s s' : Storage} {runId : RunId}

theorem gone_deleteRunData (s : Storage) (runId : RunId) : Gone (s.deleteRunData runId) runId where
  run := Dict.get?_erase_self _ _
  runResults _ hr := of_decide_eq_true (List.mem_filter.mp hr).2
  similarityScores _ hr := of_decide_eq_true (List.mem_filter.mp hr).2
  permutations _ hr := of_decide_eq_true (List.mem_filter.mp hr).2
  permutationMasks _ hr := of_decide_eq_true (List.mem_filter.mp hr).2

/-- A step that inserts no row of these tables. -/
theorem Gone.of_subset (h : Gone s runId) (hrun : s'.runs.get? runId = none)
    (hresults : s'.runResults ⊆ s.runResults)
    (hscores : s'.similarityScores ⊆ s.similarityScores)
    (hpermutations : s'.permutations ⊆ s.permutations)
    (hmasks : s'.permutationMasks ⊆ s.permutationMasks) : Gone s' runId where
  run := hrun
  runResults r hr := h.runResults r (hresults hr)
  similarityScores r hr := h.similarityScores r (hscores hr)
  permutations r hr := h.permutations r (hpermutations hr)
  permutationMasks r hr := h.permutationMasks r (hmasks hr)

/-- The foreign keys of the results refuse the rows of a run that is gone. -/
theorem Gone.stores {t : Process} (h : Gone s runId) (hstores : Stores s t s') : Gone s' runId := by
  have hne : ∀ {r : RunId}, s.RunExists r → r ≠ runId := by
    intro r hexists heq
    obtain ⟨row, hrow⟩ := Dict.mem_keys_iff.mp hexists
    rw [heq, h.run] at hrow
    cases hrow
  cases hstores with
  | scores filename scores hexists =>
    refine ⟨h.run, h.runResults, ?_, h.permutations, h.permutationMasks⟩
    intro r hr
    rcases List.mem_append.mp hr with hr | hr
    · exact h.similarityScores r hr
    · rw [List.mem_singleton.mp hr]
      exact hne hexists
  | groups groups hexists =>
    refine ⟨h.run, ?_, h.similarityScores, h.permutations, h.permutationMasks⟩
    intro r hr
    rcases List.mem_append.mp hr with hr | hr
    · exact h.runResults r hr
    · rw [List.mem_singleton.mp hr]
      exact hne hexists
  | permutations rows mask hrow hrows =>
    have hexists := Dict.mem_keys_of_get? hrow
    refine ⟨h.run, h.runResults, h.similarityScores, ?_, ?_⟩
    · intro r hr
      rcases List.mem_append.mp hr with hr | hr
      · exact h.permutations r hr
      · rw [(hrows r hr).1]
        exact hne hexists
    · intro r hr
      rcases List.mem_append.mp hr with hr | hr
      · exact h.permutationMasks r hr
      · rw [List.mem_singleton.mp hr]
        exact hne hexists
  | upload _ hinsert =>
    obtain ⟨_, -, hinsert⟩ := bind_eq_ok.mp hinsert
    cases hinsert
    exact ⟨h.run, h.runResults, h.similarityScores, h.permutations, h.permutationMasks⟩
  | nothing => exact h

theorem Gone.serviceStep {t t' : Process} {a : Service.Action} {server : Server}
    {started : List Process} (h : Gone s runId)
    (hpending : pendingPosts runId (.system (.service t)) = 0)
    (hstep : ServiceStep settings s.toServer t a server t' started) :
    Gone { s with toServer := server } runId := by
  refine ⟨?_, h.runResults, h.similarityScores, h.permutations, h.permutationMasks⟩
  rcases get?_serviceStep hstep h.run with hrun | ⟨hpos, -⟩
  · exact hrun
  · omega

theorem Gone.runDeleteStep {r : RunDelete} {phase : RunDeletePhase}
    {files : Option (List FileName)} (h : Gone s runId)
    (hstep : RunDeleteStep s r s' phase files) : Gone s' runId := by
  cases hstep with
  | delete =>
    apply h.of_subset
    · exact get?_deleteRunData h.run r.runId
    · exact List.filter_subset_self _
    · exact List.filter_subset_self _
    · exact List.filter_subset_self _
    · exact List.filter_subset_self _
  | setState => exact ⟨h.run, h.runResults, h.similarityScores, h.permutations, h.permutationMasks⟩
  | _ => exact h

theorem Gone.systemStep {t t' : SystemProcess} {a : Service.Action} {started : List SystemProcess}
    (h : Gone s runId) (hpending : pendingPosts runId (.system t) = 0)
    (hstep : SystemStep settings s t a s' t' started) : Gone s' runId := by
  cases hstep with
  | service hservice _ hstores => exact (h.serviceStep hpending hservice).stores hstores
  | projectDelete hdelete =>
    cases hdelete with
    | mark => exact ⟨h.run, h.runResults, h.similarityScores, h.permutations, h.permutationMasks⟩
    | _ => exact h
  | removeProject hremove =>
    cases hremove with
    | setState =>
      exact ⟨h.run, h.runResults, h.similarityScores, h.permutations, h.permutationMasks⟩
    | commit =>
      apply h.of_subset
      · exact h.run
      · exact (List.diff_sublist _ _).subset
      · exact List.Subset.refl _
      · exact (List.filter_sublist.trans (List.diff_sublist _ _)).subset
      · exact (List.diff_sublist _ _).subset
    | _ => exact h
  | deleteObjects =>
    exact ⟨h.run, h.runResults, h.similarityScores, h.permutations, h.permutationMasks⟩

theorem Gone.step {t t' : DeployedProcess} {started : List DeployedProcess} (h : Gone s runId)
    (hpending : pendingPosts runId t = 0) (hstep : DeployedStep settings s t s' t' started) :
    Gone s' runId := by
  cases hstep with
  | system hsystem => exact h.systemStep hpending (systemStep_of_step hsystem)
  | runDelete hdelete => exact h.runDeleteStep hdelete

end Gone

/-- What is known of a run and of the requests to delete it. -/
structure Traced (runId : RunId) (pool : Pool Storage DeployedProcess) : Prop where
  inserted : pool.shared.RunExists runId → Drawn runId pool
  found : ∀ r : RunDelete, .runDelete r ∈ pool.processes → r.runId = runId → r.HasFound →
    Drawn runId pool
  gone : ∀ r : RunDelete, .runDelete r ∈ pool.processes → r.runId = runId → r.HasDeleted →
    pool.total (posts runId) ≤ 1 → Gone pool.shared runId

section Traced
variable {settings : Settings} {d d' : Deployment} {runId : RunId}

theorem runExists_step {s s' : Storage} {t t' : DeployedProcess} {started : List DeployedProcess}
    (hstep : DeployedStep settings s t s' t' started) (h : s'.RunExists runId) :
    s.RunExists runId ∨ pendingPosts runId t' < posts runId t' := by
  obtain ⟨row, hrow⟩ := Dict.mem_keys_iff.mp h
  by_cases hexists : s.RunExists runId
  · exact .inl hexists
  · rcases get?_step hstep (Dict.get?_eq_none.mpr hexists) with hnone | ⟨-, hlt⟩
    · rw [hrow] at hnone
      cases hnone
    · exact .inr hlt

theorem runDelete_step {s s' : Storage} {r : RunDelete} {phase : RunDeletePhase}
    {files : Option (List FileName)} (hstep : RunDeleteStep s r s' phase files) :
    (RunDelete.HasFound { r with phase := phase } → r.HasFound ∨ s.RunExists r.runId) ∧
      (RunDelete.HasDeleted { r with phase := phase } → r.HasDeleted ∨ Gone s' r.runId) := by
  cases hstep with
  | check hphase hexists hnext =>
    constructor
    · intro hfound
      rcases hnext with rfl | rfl
      · obtain ⟨row, hrow, -⟩ := runOf_of_isOk (hexists rfl)
        exact .inr (Dict.mem_keys_of_get? hrow)
      · exact absurd rfl hfound.2.1
    · intro hdeleted
      rcases hnext with rfl | rfl <;> simp [RunDelete.HasDeleted] at hdeleted
  | authorize hphase hnext =>
    constructor
    · intro
      exact .inl (by simp [RunDelete.HasFound, hphase])
    · intro hdeleted
      rcases hnext with rfl | rfl <;> simp [RunDelete.HasDeleted] at hdeleted
  | setState hphase | find hphase =>
    constructor
    · intro
      exact .inl (by simp [RunDelete.HasFound, hphase])
    · intro hdeleted
      simp [RunDelete.HasDeleted] at hdeleted
  | delete hphase =>
    constructor
    · intro
      exact .inl (by simp [RunDelete.HasFound, hphase])
    · intro
      exact .inr (gone_deleteRunData s r.runId)
  | answer hphase =>
    have hdeleted : r.HasDeleted := .inr ⟨_, hphase⟩
    exact ⟨fun _ => .inl hdeleted.hasFound, fun _ => .inl hdeleted⟩
  | again hphase =>
    constructor
    · intro
      rcases hphase with hphase | ⟨file, hphase⟩
      · exact .inl (by simp [RunDelete.HasFound, hphase])
      · exact .inl (by simp [RunDelete.HasFound, hphase])
    · intro hdeleted
      simp [RunDelete.HasDeleted] at hdeleted
  | fail =>
    constructor
    · intro hfound
      exact absurd rfl hfound.2.2
    · intro hdeleted
      simp [RunDelete.HasDeleted] at hdeleted

/-- A step starts no request to delete a run, and changes no other one. -/
theorem mem_runDelete_step {s s' : Storage} {t t' : DeployedProcess}
    {before after started : List DeployedProcess} {r : RunDelete}
    (hstep : DeployedStep settings s t s' t' started)
    (h : .runDelete r ∈ before ++ t' :: after ++ started) :
    .runDelete r ∈ before ++ t :: after ∨ t' = .runDelete r := by
  have hstarted : .runDelete r ∉ started := by
    intro hr
    cases hstep with
    | system =>
      obtain ⟨u, -, hu⟩ := List.mem_map.mp hr
      cases hu
    | runDelete =>
      obtain ⟨files, -, hu⟩ := Option.map_eq_some_iff.mp (Option.mem_toList.mp hr)
      cases hu
  simp only [List.mem_append, List.mem_cons] at h ⊢
  rcases h with (h | h | h) | h
  · exact .inl (.inl h)
  · exact .inr h.symm
  · exact .inl (.inr (.inr h))
  · exact absurd h hstarted

theorem Traced.step {s s' : Storage} {t t' : DeployedProcess}
    {before after started : List DeployedProcess} (h : Traced runId ⟨s, before ++ t :: after⟩)
    (hstep : DeployedStep settings s t s' t' started) :
    Traced runId ⟨s', before ++ t' :: after ++ started⟩ := by
  obtain ⟨hposts, hpending⟩ := total_posts_step runId before after hstep
  have hdrawn : Drawn runId ⟨s, before ++ t :: after⟩ →
      Drawn runId ⟨s', before ++ t' :: after ++ started⟩ := by
    intro hold
    unfold Drawn at hold ⊢
    omega
  have ht : t ∈ before ++ t :: after := List.mem_append_right _ List.mem_cons_self
  have ht' : t' ∈ before ++ t' :: after ++ started := by simp
  -- the request in its state before the step
  have hrequest : ∀ r : RunDelete, t' = .runDelete r → r.runId = runId →
      (r.HasFound → Drawn runId ⟨s, before ++ t :: after⟩) ∧
        (r.HasDeleted → Gone s' runId ∨ ∃ r₀ : RunDelete, .runDelete r₀ ∈ before ++ t :: after ∧
          r₀.runId = runId ∧ r₀.HasDeleted) := by
    rintro r rfl hid
    cases hstep with
    | @runDelete r₀ s' phase files hdelete =>
      have hid₀ : r₀.runId = runId := hid
      obtain ⟨hfound, hdeleted⟩ := runDelete_step hdelete
      constructor
      · intro hr
        rcases hfound hr with hr | hexists
        · exact h.found r₀ ht hid₀ hr
        · exact h.inserted (hid₀ ▸ hexists)
      · intro hr
        rcases hdeleted hr with hr | hgone
        · exact .inr ⟨r₀, ht, hid₀, hr⟩
        · exact .inl (hid₀ ▸ hgone)
  constructor
  · intro hexists
    rcases runExists_step hstep hexists with hexists | hlt
    · exact hdrawn (h.inserted hexists)
    · exact drawn_of_mem ht' hlt
  · intro r hr hid hfound
    rcases mem_runDelete_step hstep hr with hr | heq
    · exact hdrawn (h.found r hr hid hfound)
    · exact hdrawn ((hrequest r heq hid).1 hfound)
  · intro r hr hid hdeleted hone
    have hkeep : ∀ r₀ : RunDelete, .runDelete r₀ ∈ before ++ t :: after → r₀.runId = runId →
        r₀.HasDeleted → Gone s' runId := by
      intro r₀ hr₀ hid₀ hdeleted₀
      have hone₀ := hposts ▸ hone
      have hzero := (h.found r₀ hr₀ hid₀ hdeleted₀.hasFound).pendingPosts_eq_zero hone₀ ht
      exact (h.gone r₀ hr₀ hid₀ hdeleted₀ hone₀).step hzero hstep
    rcases mem_runDelete_step hstep hr with hr | heq
    · exact hkeep r hr hid hdeleted
    · rcases (hrequest r heq hid).2 hdeleted with hgone | ⟨r₀, hr₀, hid₀, hdeleted₀⟩
      · exact hgone
      · exact hkeep r₀ hr₀ hid₀ hdeleted₀

theorem Traced.arrive {s : Storage} {processes : List DeployedProcess} {t : DeployedProcess}
    (h : Traced runId ⟨s, processes⟩) (harriving : Arriving t) :
    Traced runId ⟨s, processes ++ [t]⟩ := by
  have hmem : ∀ r : RunDelete, .runDelete r ∈ processes ++ [t] → r.HasFound →
      .runDelete r ∈ processes := by
    intro r hr hfound
    rcases List.mem_append.mp hr with hr | hr
    · exact hr
    · obtain rfl := List.mem_singleton.mp hr
      exact absurd (of_decide_eq_true harriving) hfound.1
  have htotal : ∀ f : DeployedProcess → ℕ,
      (⟨s, processes ++ [t]⟩ : Pool Storage DeployedProcess).total f =
        (⟨s, processes⟩ : Pool Storage DeployedProcess).total f + f t := by
    intro f
    simp [Pool.total]
  have hle := pendingPosts_le runId t
  have hdrawn : Drawn runId ⟨s, processes⟩ → Drawn runId ⟨s, processes ++ [t]⟩ := by
    intro hold
    unfold Drawn at hold ⊢
    rw [htotal, htotal]
    omega
  constructor
  · intro hexists
    exact hdrawn (h.inserted hexists)
  · intro r hr hid hfound
    exact hdrawn (h.found r (hmem r hr hfound) hid hfound)
  · intro r hr hid hdeleted hone
    refine h.gone r (hmem r hr hdeleted.hasFound) hid hdeleted ?_
    rw [htotal] at hone
    omega

theorem Traced.posted {codes : Codes} {data : Option NewProject} {r r' : Registry}
    {result : Except Error NewProjectResponse} {processes : List DeployedProcess}
    (h : Traced runId ⟨r.toStorage, processes⟩) (hposted : Posted codes data r r' result) :
    Traced runId ⟨r'.toStorage, processes⟩ := by
  have hsame : r'.runs = r.runs ∧ r'.runResults = r.runResults ∧
      r'.similarityScores = r.similarityScores ∧ r'.permutations = r.permutations ∧
        r'.permutationMasks = r.permutationMasks := by
    cases hposted <;> exact ⟨rfl, rfl, rfl, rfl, rfl⟩
  obtain ⟨hruns, hresults, hscores, hpermutations, hmasks⟩ := hsame
  constructor
  · intro hexists
    apply h.inserted
    unfold Storage.RunExists at hexists ⊢
    rwa [hruns] at hexists
  · exact h.found
  · intro q hq hid hdeleted hone
    have hgone := h.gone q hq hid hdeleted hone
    apply hgone.of_subset
    · rw [hruns]
      exact hgone.run
    · exact hresults ▸ List.Subset.refl _
    · exact hscores ▸ List.Subset.refl _
    · exact hpermutations ▸ List.Subset.refl _
    · exact hmasks ▸ List.Subset.refl _

theorem traced_of_reaches (h : Deployment.Reaches settings .new d) : Traced runId d.pool := by
  induction h with
  | refl =>
    constructor
    · intro hexists
      cases hexists
    · intro r hr
      cases hr
    · intro r hr
      cases hr
  | @tail d d' hreaches hstep ih =>
    have hrecorded := (sound_of_reaches hreaches).recorded
    cases hstep with
    | @create codes data r result hpost =>
      have hposted := hrecorded.postedOf codes data
      rw [hpost] at hposted
      exact ih.posted hposted
    | arrive harriving => exact ih.arrive harriving
    | run hrun =>
      obtain ⟨before, t, after, s', t', started, hpool, hdeployed, rfl⟩ :=
        Deployment.deployedStep_of_run hrun
      rw [hpool] at ih
      exact ih.step hdeployed

def ChecksRun : Endpoint → Bool
  | .runDescription | .runStatus | .runResult _ => true
  | _ => false

/-- What is left of a run, in the database and for its clients. -/
structure RunDeleted (s : Storage) (runId : RunId) : Prop where
  gone : Gone s runId
  refused : ∀ {endpoint : Endpoint}, ChecksRun endpoint → ∀ projectId authorization,
    endpoint.status s projectId runId authorization = 403
  unlisted : ∀ {projectId authorization runs}, runsGet s projectId authorization = .ok runs →
    runId ∉ runs.map Prod.fst

theorem Gone.runDeleted {s : Storage} (h : Gone s runId) : RunDeleted s runId where
  gone := h
  refused := by
    intro endpoint hchecks projectId authorization
    have hmissing : ¬ (stateOfRun s projectId runId).isSome := by simp [stateOfRun, h.run]
    have habort := (abortIfRunDoesntExist_eq s projectId runId).trans (if_neg hmissing)
    cases endpoint with
    | runDescription =>
      rw [Endpoint.status, runGet, authorizeRunDetail, habort]
      rfl
    | runStatus =>
      rw [Endpoint.status, runStatusGet, habort]
      rfl
    | runResult =>
      rw [Endpoint.status, runResultGet, habort]
      rfl
    | _ => cases hchecks
  unlisted := by
    intro projectId authorization runs hruns hmem
    obtain ⟨_, -, hruns⟩ := bind_eq_ok.mp hruns
    cases hruns
    obtain ⟨e, he, rfl⟩ := List.mem_map.mp hmem
    obtain ⟨e', he', rfl⟩ := List.mem_map.mp he
    have hkey : e'.1 ∈ s.runs.keys := List.mem_map_of_mem (List.mem_filter.mp he').1
    exact Dict.get?_eq_none.mp h.run hkey

/-- Once the request to delete a run has been answered, the run is gone in every later state,
whatever its tasks or the deletion of its project do. -/
theorem runDeleted_of_answered (h : Deployment.Reaches settings .new d) {r : RunDelete}
    (hr : .runDelete r ∈ d.pool.processes) (hanswered : r.phase = .answered)
    (hone : d.pool.total (posts r.runId) ≤ 1) : RunDeleted d.pool.shared r.runId :=
  ((traced_of_reaches h).gone r hr rfl (.inl hanswered) hone).runDeleted

def postedRun : Deployment :=
  let d := Deployment.new.create (lettered 'p') permutationsDocument
  ⟨⟨d.pool.shared, d.pool.processes ++ [.system (.service (.post ⟨"p", "r", .pending⟩))] ++
    [.runDelete ⟨"p", "r", some "pr", .received⟩]⟩, d.nextDpId, d.created⟩

theorem reaches_postedRun : Deployment.Reaches settings .new postedRun :=
  ((reaches_create .refl (lettered 'p') permutationsDocument).tail (.arrive rfl)).tail
    (.arrive rfl)

/-- The run is inserted and deleted before it is looked at. -/
theorem runDeleted_postedRun : ∃ pool,
    postedRun.pool.run (deployed Tasks.defaultSettings)
        (systemAll [0] ++ List.replicate 6 (1, .runDelete .proceed)) = some pool ∧
      RunDeleted pool.shared "r" := by
  have hrun : (postedRun.pool.run (deployed Tasks.defaultSettings)
      (systemAll [0] ++ List.replicate 6 (1, .runDelete .proceed))).map Pool.processes =
        some [.system (.service (.post ⟨"p", "r", .committed ()⟩)),
          .runDelete ⟨"p", "r", some "pr", .answered⟩] := by decide
  obtain ⟨pool, hpool, hprocesses⟩ := Option.map_eq_some_iff.mp hrun
  have hreaches : Deployment.Reaches Tasks.defaultSettings .new
      ⟨pool, postedRun.nextDpId, postedRun.created⟩ := reaches_postedRun.trans (reaches_run hpool)
  have hone : pool.total (posts "r") ≤ 1 := by
    unfold Pool.total
    rw [hprocesses]
    decide
  have hmem : .runDelete ⟨"p", "r", some "pr", .answered⟩ ∈ pool.processes := by
    rw [hprocesses]
    decide
  exact ⟨pool, hpool, runDeleted_of_answered hreaches hmem rfl hone⟩

end Traced
end EntityService.Models
