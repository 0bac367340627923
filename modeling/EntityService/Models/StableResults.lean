import EntityService.Models.KeptResults
import EntityService.Service.WakeUp

/-! A result that has been given is given again, until its run or its project is deleted. -/
namespace EntityService.Models
open Lib Service Views Tasks.ProjectCleanup

/-- What has been answered about the result of a run is answered again. Only the data of a file of
scores is read from the bucket. The number of rows beside a permutation is that of the datasets at
the time. -/
structure SameResult (c : Created) (runId : RunId) (s s' : Storage) : Prop where
  analyst : ∀ {returnObjectStoreAddress result},
    returnObjectStoreAddress = true ∨
        s.getResultType c.response.projectId ≠ .ok .similarityScores →
      runResultGet s c.response.projectId runId (some c.response.resultToken)
          returnObjectStoreAddress = .ok result →
        runResultGet s' c.response.projectId runId (some c.response.resultToken)
          returnObjectStoreAddress = .ok result
  provider : ∀ {token returnObjectStoreAddress result}, token ≠ some c.response.resultToken →
    s'.selectDataproviderId c.response.projectId token =
        s.selectDataproviderId c.response.projectId token →
      runResultGet s c.response.projectId runId token returnObjectStoreAddress = .ok result →
        ∃ rows, runResultGet s' c.response.projectId runId token returnObjectStoreAddress =
          .ok { result with rows := rows }

section TokenType
variable {s : Storage} {projectId : ProjectId} {token : Option Token}

theorem tokenType_of_checkProjectAuth {resultType : ResultType}
    (htype : s.getResultType projectId = .ok resultType)
    (hauth : s.checkProjectAuth projectId token = true) :
    getAuthorizationTokenTypeOrAbort s projectId token = .ok .resultToken := by
  rw [getAuthorizationTokenTypeOrAbort, authorizationTokenType, if_pos hauth, ok_bind, htype,
    ok_bind]
  cases resultType <;> rfl

theorem tokenType_of_selectDataproviderId (htype : s.getResultType projectId = .ok .permutations)
    (hauth : ¬ s.checkProjectAuth projectId token = true) {dpId : DpId}
    (hselect : s.selectDataproviderId projectId token = some dpId) :
    getAuthorizationTokenTypeOrAbort s projectId token = .ok .receiptToken := by
  have hsome : (s.selectDataproviderId projectId token).isSome = true := by
    rw [hselect]
    rfl
  rw [getAuthorizationTokenTypeOrAbort, authorizationTokenType, if_neg hauth, if_pos hsome,
    ok_bind, htype]
  rfl

end TokenType

section Queries
variable {projectId : ProjectId} {runId : RunId} {s s' : Storage}
  (h : KeepsResults projectId runId s s')
include h

theorem KeepsResults.getRunResult {result : List Group}
    (hresult : s.getRunResult runId = .ok result) : s'.getRunResult runId = .ok result := by
  obtain ⟨row, hrow, hsame⟩ := bind_eq_ok.mp hresult
  have hfind := find?_of_filter_prefix h.runResults (orRaise_eq_ok.mp hrow)
  rw [Storage.getRunResult, hfind]
  exact hsame

theorem KeepsResults.getSimilarityScoreResultFilename {filename : FileName}
    (hname : getSimilarityScoreResultFilename s runId = .ok filename) :
    getSimilarityScoreResultFilename s' runId = .ok filename := by
  have hfile : s.getSimilarityScoresFilename runId = .ok filename := by
    unfold Views.getSimilarityScoreResultFilename at hname
    split at hname
    · cases hname
    · exact hname
  obtain ⟨file, hhead, hsame⟩ := bind_eq_ok.mp hfile
  obtain ⟨rest, hrest⟩ := h.similarityScores
  have hfile' : (s'.similarityFiles runId).head? = some file := by
    have hfirst := orRaise_eq_ok.mp hhead
    unfold Storage.similarityFiles at hfirst ⊢
    rw [← hrest, List.map_append, List.head?_append, hfirst]
    rfl
  have hagain : s'.getSimilarityScoresFilename runId = .ok filename := by
    rw [Storage.getSimilarityScoresFilename, hfile']
    exact hsame
  rw [Views.getSimilarityScoreResultFilename, hagain]

theorem KeepsResults.getPermutationUnencryptedMask {mask : List ℕ}
    (hmask : s.getPermutationUnencryptedMask projectId runId = .ok mask) :
    s'.getPermutationUnencryptedMask projectId runId = .ok mask := by
  obtain ⟨row, hrow, hsame⟩ := bind_eq_ok.mp hmask
  have hfind := find?_of_filter_prefix h.permutationMasks (orRaise_eq_ok.mp hrow)
  rw [Storage.getPermutationUnencryptedMask, hfind]
  exact hsame

theorem KeepsResults.getPermutationResult {d : DataproviderRow} (hd : d ∈ s'.db.dataproviders)
    (hproject : d.project = projectId) {perm : List ℕ}
    (hperm : s.getPermutationResult runId d.id = .ok perm) :
    s'.getPermutationResult runId d.id = .ok perm := by
  obtain ⟨row, hrow, hsame⟩ := bind_eq_ok.mp hperm
  have hkept := (h.permutations _ (List.mem_map_of_mem hd) hproject).2
  have hfind := find?_of_filter_prefix hkept (orRaise_eq_ok.mp hrow)
  rw [Storage.getPermutationResult, hfind]
  exact hsame

variable {resultType : ResultType} (htype : s.getResultType projectId = .ok resultType)
  (htype' : s'.getResultType projectId = .ok resultType) {token : Option Token}
include htype htype'

theorem KeepsResults.getResult_analyst (hauth : s.checkProjectAuth projectId token = true)
    (hauth' : s'.checkProjectAuth projectId token = true) {returnObjectStoreAddress : Bool}
    (haddress : returnObjectStoreAddress = true ∨
      s.getResultType projectId ≠ .ok .similarityScores) {result : RunResult}
    (hresult : getResult s projectId runId token returnObjectStoreAddress = .ok result) :
    getResult s' projectId runId token returnObjectStoreAddress = .ok result := by
  have htoken := tokenType_of_checkProjectAuth htype hauth
  have htoken' := tokenType_of_checkProjectAuth htype' hauth'
  unfold getResult at hresult ⊢
  rw [htype, ok_bind, htoken, ok_bind] at hresult
  rw [htype', ok_bind, htoken', ok_bind]
  cases resultType with
  | groups =>
    obtain ⟨groups, hgroups, hsame⟩ := bind_eq_ok.mp hresult
    dsimp only
    rw [h.getRunResult hgroups]
    exact hsame
  | similarityScores =>
    obtain ⟨filename, hname, hsame⟩ := bind_eq_ok.mp hresult
    have htrue : returnObjectStoreAddress = true := haddress.resolve_right fun hne => hne htype
    subst htrue
    dsimp only
    rw [h.getSimilarityScoreResultFilename hname]
    exact hsame
  | permutations =>
    obtain ⟨mask, hmask, hsame⟩ := bind_eq_ok.mp hresult
    dsimp only [getPermutationsResult]
    rw [h.getPermutationUnencryptedMask hmask]
    exact hsame

theorem KeepsResults.getResult_provider (hauth : ¬ s.checkProjectAuth projectId token = true)
    (hauth' : ¬ s'.checkProjectAuth projectId token = true)
    (hselect : s'.selectDataproviderId projectId token = s.selectDataproviderId projectId token)
    {returnObjectStoreAddress : Bool} {result : RunResult}
    (hresult : getResult s projectId runId token returnObjectStoreAddress = .ok result) :
    ∃ rows, getResult s' projectId runId token returnObjectStoreAddress =
      .ok { result with rows := rows } := by
  obtain ⟨_, hfound, hresult⟩ := bind_eq_ok.mp hresult
  obtain ⟨tokenType, htoken, hresult⟩ := bind_eq_ok.mp hresult
  obtain rfl := Except.ok.inj (htype.symm.trans hfound)
  rcases getAuthorizationTokenTypeOrAbort_eq_ok htoken with ⟨rfl, -⟩ | ⟨rfl, hpermutations⟩
  · -- the token is no result token
    obtain ⟨found, hauthorised, htoken⟩ := bind_eq_ok.mp htoken
    obtain ⟨_, -, htoken⟩ := bind_eq_ok.mp htoken
    obtain ⟨_, -, hsame⟩ := bind_eq_ok.mp htoken
    cases hsame
    rw [authorizationTokenType, if_neg hauth] at hauthorised
    split_ifs at hauthorised
    cases hauthorised
  · obtain rfl := Except.ok.inj (htype.symm.trans hpermutations)
    obtain ⟨dpId, hdp, hresult⟩ := bind_eq_ok.mp hresult
    obtain ⟨perm, hperm, hresult⟩ := bind_eq_ok.mp hresult
    cases hresult
    have hdp' : s'.selectDataproviderId projectId token = some dpId :=
      hselect.trans (orRaise_eq_ok.mp hdp)
    have htoken' := tokenType_of_selectDataproviderId htype' hauth' hdp'
    obtain ⟨d, hd, rfl, hproject, -⟩ := selectDataproviderId_eq_some hdp'
    refine ⟨s'.getSmallerDatasetSizeForProject projectId, ?_⟩
    rw [getResult, htype', ok_bind, htoken', ok_bind]
    dsimp only [getPermutationsResult]
    rw [hdp', orRaise, Option.elim_some, ok_bind, h.getPermutationResult hd hproject hperm]
    rfl

end Queries

section Reached
variable {settings : Settings} {d d' : Deployment} {projectId : ProjectId} {runId : RunId}

/-- Requests to insert a run are not forgotten. -/
theorem total_posts_le (runId : RunId) (hstep : Deployment.Step settings d d') :
    d.pool.total (posts runId) ≤ d'.pool.total (posts runId) := by
  cases hstep with
  | create => exact le_rfl
  | @arrive t =>
    show _ ≤ ((d.pool.processes ++ [t]).map (posts runId)).sum
    rw [List.map_append, List.sum_append]
    exact Nat.le_add_right _ _
  | run hrun =>
    obtain ⟨before, t, after, s', t', started, hpool, hdeployed, rfl⟩ :=
      Deployment.deployedStep_of_run hrun
    rw [hpool]
    exact (total_posts_step runId before after hdeployed).1.ge

theorem PostedFor.of_step (h : PostedFor runId projectId d.pool)
    (hstep : Deployment.Step settings d d') : PostedFor runId projectId d'.pool := by
  cases hstep with
  | create => exact h
  | arrive =>
    obtain ⟨p, hp, hrest⟩ := h
    exact ⟨p, List.mem_append_left _ hp, hrest⟩
  | run hrun =>
    obtain ⟨before, t, after, s', t', started, hpool, hdeployed, rfl⟩ :=
      Deployment.deployedStep_of_run hrun
    rw [hpool] at h
    exact h.step hdeployed

theorem PostedFor.of_reaches (h : PostedFor runId projectId d.pool)
    (hreaches : Deployment.Reaches settings d d') : PostedFor runId projectId d'.pool := by
  induction hreaches with
  | refl => exact h
  | tail _ hstep ih => exact ih.of_step hstep

theorem runExists_of_step (h : Deployment.Reaches settings .new d)
    (hstep : Deployment.Step settings d d') (hposted : PostedFor runId projectId d.pool)
    (hone : d'.pool.total (posts runId) ≤ 1) (hexists : d'.pool.shared.RunExists runId) :
    d.pool.shared.RunExists runId := by
  have honeBefore := (total_posts_le runId hstep).trans hone
  cases hstep with
  | @create codes data r result hpost =>
    have hcreated := (sound_of_reaches h).recorded.postedOf codes data
    rw [hpost] at hcreated
    cases hcreated <;> exact hexists
  | arrive => exact hexists
  | run hrun =>
    obtain ⟨before, t, after, s', t', started, hpool, hdeployed, rfl⟩ :=
      Deployment.deployedStep_of_run hrun
    by_contra hnone
    obtain ⟨row, hrow⟩ := Dict.mem_keys_iff.mp hexists
    rcases get?_step hdeployed (Dict.get?_eq_none.mpr hnone) with hmissing | ⟨hpending, -⟩
    · rw [hrow] at hmissing
      cases hmissing
    · have ht : t ∈ d.pool.processes := by
        rw [hpool]
        exact List.mem_append_right _ List.mem_cons_self
      have hzero := hposted.drawn.pendingPosts_eq_zero honeBefore ht
      omega

theorem keeps_step (h : Deployment.Reaches settings .new d)
    (hstep : Deployment.Step settings d d') (hposted : PostedFor runId projectId d.pool)
    (hproject : projectId ∈ d.pool.shared.db.projects.map ProjectRow.projectId)
    (hone : d'.pool.total (posts runId) ≤ 1) (hunmarked : ¬ Marked d.registry projectId)
    (hexists : d'.pool.shared.RunExists runId) :
    KeepsResults projectId runId d.pool.shared d'.pool.shared := by
  have honeBefore := (total_posts_le runId hstep).trans hone
  have hattributed := attributed_of_reaches h
  obtain ⟨hrecorded, hknows⟩ := sound_of_reaches h
  cases hstep with
  | @create codes data r result hpost =>
    have hcreated := hrecorded.postedOf codes data
    rw [hpost] at hcreated
    exact keeps_posted hcreated hproject
  | arrive => exact .refl projectId runId d.pool.shared
  | run hrun =>
    obtain ⟨before, t, after, s', t', started, hpool, hdeployed, rfl⟩ :=
      Deployment.deployedStep_of_run hrun
    have hlist : d.pool.processes = before ++ t :: after := congrArg Pool.processes hpool
    have ht : ∀ u, t = .system u → Knows d.registry u := fun u hu =>
      hknows u (by simp [hlist, hu])
    rw [hpool] at hattributed hposted honeBefore
    exact keeps_deployedStep (r := d.registry) hattributed honeBefore hposted ht hunmarked
      hdeployed hexists

/-- The results of a run are kept as long as the run is there and the deletion of its project is not
requested. -/
theorem keeps_of_reaches (h : Deployment.Reaches settings .new d)
    (hreaches : Deployment.Reaches settings d d') (hposted : PostedFor runId projectId d.pool)
    (hproject : projectId ∈ d.pool.shared.db.projects.map ProjectRow.projectId)
    (hone : d'.pool.total (posts runId) ≤ 1) (hunmarked : ¬ Marked d'.registry projectId)
    (hexists : d'.pool.shared.RunExists runId) :
    KeepsResults projectId runId d.pool.shared d'.pool.shared := by
  induction hreaches with
  | refl => exact .refl projectId runId d.pool.shared
  | @tail d' d'' hreaches hstep ih =>
    have hreached := h.trans hreaches
    have hextends := extends_step (sound_of_reaches hreached) hstep
    have hbefore : ¬ Marked d'.registry projectId := fun hmarked =>
      hunmarked (hextends.marked _ hmarked)
    have hpostedBefore := hposted.of_reaches hreaches
    have hproject' : projectId ∈ d'.pool.shared.db.projects.map ProjectRow.projectId := by
      rw [← map_projectId_projectColumns] at hproject ⊢
      exact (extends_of_reaches (sound_of_reaches h) hreaches).projects _ hproject
    have hexistsBefore := runExists_of_step hreached hstep hpostedBefore hone hexists
    have hkept := ih ((total_posts_le runId hstep).trans hone) hbefore hexistsBefore
    exact hkept.trans
      (keeps_step hreached hstep hpostedBefore hproject' hone hbefore hexists)

variable {c : Created}

/-- What a run has resulted in stays so: it is answered to the analyst and to each data provider in
every later state in which the run is still completed and the project still exists. The ids of runs
are drawn at random, so no two requests are taken to insert a run with the same one. -/
theorem sameResult_of_reaches (h : Deployment.Reaches settings .new d) (hc : c ∈ d.created)
    (hreaches : Deployment.Reaches settings d d') (hone : d'.pool.total (posts runId) ≤ 1)
    (hactive : d'.pool.shared.db.ProjectExists c.response.projectId) {row' : RunRow}
    (hrow' : d'.pool.shared.runs.get? runId = some row') (hcompleted : row'.state = .completed) :
    SameResult c runId d.pool.shared d'.pool.shared := by
  have hrecorded := (sound_of_reaches h).recorded
  have hrecorded' := (sound_of_reaches (h.trans hreaches)).recorded
  have hc' : c ∈ d'.created := created_subset hreaches hc
  obtain ⟨resultType, hdocument, htype⟩ := hrecorded.getResultType hc
  obtain ⟨_, hdocument', htype'⟩ := hrecorded'.getResultType hc'
  obtain rfl := Option.some.inj (hdocument.symm.trans hdocument')
  have hunmarked : ¬ Marked d'.registry c.response.projectId := fun hmarked =>
    not_exists_of_marked hrecorded'.uniqueColumns hmarked hactive
  have hkept : d.pool.shared.RunOf c.response.projectId runId →
      KeepsResults c.response.projectId runId d.pool.shared d'.pool.shared ∧
        row'.project = c.response.projectId := by
    rintro ⟨row, hrow, hproject⟩
    have hposted := (attributed_of_reaches h).rows hrow
    have hmem := (attributed_of_reaches h).projects hrow
    rw [hproject] at hposted hmem
    have hexists : d'.pool.shared.RunExists runId := Dict.mem_keys_iff.mpr ⟨row', hrow'⟩
    have hposted' := (attributed_of_reaches (h.trans hreaches)).rows hrow'
    exact ⟨keeps_of_reaches h hreaches hposted hmem hone hunmarked hexists,
      hposted'.unique (hposted.of_reaches hreaches) hone⟩
  constructor
  · intro returnObjectStoreAddress result haddress hresult
    obtain ⟨⟨row, hrow, hproject, -⟩, hresult⟩ := runResultGet_eq_ok.mp hresult
    obtain ⟨hkeeps, hproject'⟩ := hkept ⟨row, hrow, hproject⟩
    have hauth := (hrecorded.checkProjectAuth_iff hc (some c.response.resultToken)).mpr rfl
    have hauth' := (hrecorded'.checkProjectAuth_iff hc' (some c.response.resultToken)).mpr rfl
    exact runResultGet_eq_ok.mpr ⟨⟨row', hrow', hproject', hcompleted⟩,
      hkeeps.getResult_analyst htype htype' hauth hauth' haddress hresult⟩
  · intro token returnObjectStoreAddress result hother hselect hresult
    obtain ⟨⟨row, hrow, hproject, -⟩, hresult⟩ := runResultGet_eq_ok.mp hresult
    obtain ⟨hkeeps, hproject'⟩ := hkept ⟨row, hrow, hproject⟩
    have hauth := fun hauth => hother ((hrecorded.checkProjectAuth_iff hc token).mp hauth)
    have hauth' := fun hauth => hother ((hrecorded'.checkProjectAuth_iff hc' token).mp hauth)
    obtain ⟨rows, hrows⟩ :=
      hkeeps.getResult_provider htype htype' hauth hauth' hselect hresult
    exact ⟨rows, runResultGet_eq_ok.mpr ⟨⟨row', hrow', hproject', hcompleted⟩, hrows⟩⟩

/-- A project with a run and an upload of each data provider. -/
def matchedUploads : Deployment :=
  let d := Deployment.new.create (lettered 'p') permutationsDocument
  ⟨⟨d.pool.shared, d.pool.processes ++ [.system (.service (.post ⟨"p", "r", .pending⟩))] ++
    [.system (.service (.request ⟨⟨"p", 1, "x", 2, 1, 64⟩, .binaryclks, .received⟩))] ++
    [.system (.service (.request ⟨⟨"p", 2, "y", 2, 1, 64⟩, .binaryclks, .received⟩))]⟩,
    d.nextDpId, d.created⟩

theorem reaches_matchedUploads : Deployment.Reaches settings .new matchedUploads :=
  (((reaches_create .refl (lettered 'p') permutationsDocument).tail (.arrive rfl)).tail
    (.arrive rfl)).tail (.arrive rfl)

theorem created_matchedUploads :
    ⟨permutationsDocument, ⟨"p", ["p", "pu"], "pr"⟩⟩ ∈ matchedUploads.created := by decide

/-- The run up to its completion. The first record of one dataset matches the second of the
other. -/
def matchedSchedule : List (ℕ × DeployedAction) :=
  let written : Written :=
    ⟨[], [], [], "", [], [[(0, 0), (1, 1)]], 2, 2, ⟨unshuffled, unshuffled, unshuffled⟩⟩
  let last : List (ℕ × Service.Action) := [(12, .proceed), (12, .proceed)]
  (uploadSchedule ++ runSchedule ++ last).map fun e => (e.1, .system ⟨e.2, written⟩)

theorem reaches_matchedSchedule {pool : Pool Storage DeployedProcess}
    (h : matchedUploads.pool.run (deployed settings) matchedSchedule = some pool) :
    Deployment.Reaches settings .new ⟨pool, matchedUploads.nextDpId, matchedUploads.created⟩ :=
  reaches_matchedUploads.trans (reaches_run h)

theorem projectExists_of_any {db : Database}
    (h : db.projects.any fun row => row.projectId = projectId ∧ row.markedForDeletion = false) :
    db.ProjectExists projectId := by
  obtain ⟨row, hmem, hrow⟩ := List.any_eq_true.mp h
  exact ⟨row, hmem, of_decide_eq_true hrow⟩

/-- The permutation of a data provider, before and after another project is created. -/
theorem sameResult_matchedUploads : ∃ pool,
    matchedUploads.pool.run (deployed Tasks.defaultSettings) matchedSchedule = some pool ∧
      runResultGet pool.shared "p" "r" (some "y") false =
        .ok { noResult with permutation := some [1, 0], rows := some 2 } ∧
      SameResult ⟨permutationsDocument, ⟨"p", ["p", "pu"], "pr"⟩⟩ "r" pool.shared
        ((⟨pool, matchedUploads.nextDpId, matchedUploads.created⟩ : Deployment).create
          (lettered 'q') permutationsDocument).pool.shared := by
  have hrun : (matchedUploads.pool.run (deployed Tasks.defaultSettings) matchedSchedule).any
      fun pool => pool.total (posts "r") ≤ 1 ∧
        runResultGet pool.shared "p" "r" (some "y") false =
          .ok { noResult with permutation := some [1, 0], rows := some 2 } ∧
        ((⟨pool, matchedUploads.nextDpId, matchedUploads.created⟩ : Deployment).create
          (lettered 'q') permutationsDocument).pool.shared.runs.get? "r" =
            some ⟨"p", .completed, 3, .default, false⟩ ∧
        ((⟨pool, matchedUploads.nextDpId, matchedUploads.created⟩ : Deployment).create
          (lettered 'q') permutationsDocument).pool.shared.db.projects.any fun row =>
            row.projectId = "p" ∧ row.markedForDeletion = false := by decide +kernel
  obtain ⟨pool, hpool, hrun⟩ := (Option.any_eq_true _ _).mp hrun
  obtain ⟨hone, hresult, hrow, hactive⟩ := of_decide_eq_true hrun
  have hcreate : Deployment.Reaches Tasks.defaultSettings
      ⟨pool, matchedUploads.nextDpId, matchedUploads.created⟩ _ :=
    .single (step_create _ (lettered 'q') permutationsDocument)
  exact ⟨pool, hpool, hresult, sameResult_of_reaches (reaches_matchedSchedule hpool)
    created_matchedUploads hcreate hone (projectExists_of_any hactive) hrow rfl⟩

end Reached
end EntityService.Models
