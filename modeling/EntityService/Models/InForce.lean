import EntityService.Models.Recorded
import EntityService.Views.Endpoints

/-! The tokens that a client gets for a new project are in force until its deletion is requested.
The proof is by induction on the run, with what each deletion under way relies on. -/
namespace EntityService.Models
open Lib Service Views Tasks.ProjectCleanup

section Knows
variable {settings : Settings} {r : Registry} {s' : Storage} {created : List Created}

theorem mem_projectColumns_of_exists {projectId : ProjectId}
    (h : (abortIfProjectDoesntExist r.db projectId).isOk) :
    projectId ∈ r.db.projectColumns.map ProjectRow.projectId := by
  unfold abortIfProjectDoesntExist ensure at h
  split_ifs at h with hcheck
  · have hone := of_decide_eq_true hcheck
    obtain ⟨row, hrow, hid⟩ := List.countP_pos_iff.mp (hone ▸ Nat.one_pos)
    rw [map_projectId_projectColumns]
    exact (of_decide_eq_true hid).1 ▸ List.mem_map_of_mem hrow
  · cases h

theorem marked_markProjectDeleted {projectId : ProjectId}
    (h : projectId ∈ r.db.projectColumns.map ProjectRow.projectId) :
    Marked { r.markProjectDeleted projectId with nextDpId := r.nextDpId } projectId := by
  obtain ⟨row, hrow, rfl⟩ := List.mem_map.mp h
  refine ⟨_, mem_projectColumns_markProjectDeleted _ hrow, projectId_afterMark _ _, ?_⟩
  rw [afterMark, if_pos rfl]

/-- A request to delete a project marks one that exists before it is accepted. -/
theorem knows_projectDelete {q : DeleteRequest} {a : Service.Action} {phase : DeletePhase}
    {removes : Bool} (hknows : Knows r (.projectDelete q))
    (hstep : q.step r.toStorage a = some (s', phase, removes)) :
    Knows { s' with nextDpId := r.nextDpId } (.projectDelete { q with phase := phase }) ∧
      (removes = true → Marked { s' with nextDpId := r.nextDpId } q.projectId) := by
  obtain ⟨hexists, hmarked⟩ := hknows
  unfold DeleteRequest.step at hstep
  split at hstep
  case h_1 =>
    split at hstep
    case h_1 =>
      cases hstep
      refine ⟨⟨?_, ?_⟩, Bool.noConfusion⟩
      · intro hphase
        split_ifs at hphase with hok
        · exact mem_projectColumns_of_exists hok
        · simp at hphase
      · intro hphase
        split_ifs at hphase <;> simp at hphase
    case h_2 hq =>
      cases hstep
      refine ⟨⟨fun _ => hexists (.inl hq), ?_⟩, Bool.noConfusion⟩
      intro hphase
      split_ifs at hphase <;> simp at hphase
    case h_3 hq =>
      cases hstep
      refine ⟨⟨?_, fun _ => marked_markProjectDeleted (hexists (.inr hq))⟩, Bool.noConfusion⟩
      intro hphase
      simp at hphase
    case h_4 hq =>
      cases hstep
      refine ⟨⟨?_, fun _ => hmarked (.inl hq)⟩, fun _ => hmarked (.inl hq)⟩
      intro hphase
      simp at hphase
    case h_5 => cases hstep
    case h_6 => cases hstep
  case h_2 =>
    split_ifs at hstep
    cases hstep
    exact ⟨⟨by simp, by simp⟩, Bool.noConfusion⟩
  case h_3 => cases hstep

/-- The providers that a deletion gathers are those of its project. -/
theorem gathered_owned (h : Recorded r created) {projectId : ProjectId} {dpId : DpId}
    (hdp : dpId ∈ r.getDataproviderIds projectId) : dpId < r.nextDpId ∧
      ∀ d ∈ r.db.providerColumns, d.1 = dpId → d.2.2 = projectId := by
  unfold Storage.getDataproviderIds at hdp
  rw [List.mem_insertionSort] at hdp
  obtain ⟨row, hrow, rfl⟩ := List.mem_map.mp hdp
  obtain ⟨hmem, hproject⟩ := List.mem_filter.mp hrow
  have hcolumn : (row.id, row.token, row.project) ∈ r.db.providerColumns := List.mem_map_of_mem hmem
  refine ⟨h.fresh _ hcolumn, ?_⟩
  intro d hd hid
  rw [List.inj_on_of_nodup_map h.ids hd hcolumn hid]
  exact (of_decide_eq_true hproject).1

theorem knows_removeProject (h : Recorded r created) {t t' : RemoveProject} {a : Service.Action}
    {started : List SystemProcess} (hknows : Knows r (.removeProject t))
    (heffect : Effect r.toStorage (.removeProject t) s')
    (hstep : RemoveStep r.toStorage t a s' t' started) :
    Knows { s' with nextDpId := r.nextDpId } (.removeProject t') := by
  have hkept := hknows.extends (extends_effect heffect)
  cases hstep with
  | gather =>
    exact ⟨hkept.1, fun dpId hdp => gathered_owned h hdp⟩
  | _ => exact hkept

theorem knows_step (h : Recorded r created) {t t' : SystemProcess} {a : SystemAction}
    {started : List SystemProcess} (hknows : Knows r t)
    (hstep : system settings r.toStorage t a = some (s', t', started)) :
    Knows { s' with nextDpId := r.nextDpId } t' ∧
      ∀ u ∈ started, Knows { s' with nextDpId := r.nextDpId } u := by
  have heffect := effect_of_step (systemStep_of_step hstep)
  cases t with
  | service t =>
    simp only [system, Option.bind_eq_bind, Option.bind_eq_some_iff, Option.pure_def] at hstep
    obtain ⟨⟨s₁, t₁, started₁⟩, -, hstep⟩ := hstep
    cases hstep
    refine ⟨trivial, ?_⟩
    intro u hu
    obtain ⟨v, -, rfl⟩ := List.mem_map.mp hu
    trivial
  | projectDelete q =>
    simp only [system, Option.bind_eq_bind, Option.bind_eq_some_iff, Option.pure_def] at hstep
    obtain ⟨⟨s₁, phase, removes⟩, hq, hstep⟩ := hstep
    cases hstep
    obtain ⟨hnext, hmarked⟩ := knows_projectDelete hknows hq
    refine ⟨hnext, ?_⟩
    intro u hu
    split_ifs at hu with hremoves
    · obtain rfl := List.mem_singleton.mp hu
      exact ⟨hmarked hremoves, fun dpId hdp => absurd hdp List.not_mem_nil⟩
    · cases hu
  | removeProject t =>
    simp only [system, Option.bind_eq_bind, Option.bind_eq_some_iff, Option.pure_def] at hstep
    obtain ⟨⟨s₁, t₁, started₁⟩, ht, hstep⟩ := hstep
    cases hstep
    have hremove := removeStep_of_step ht
    refine ⟨knows_removeProject h hknows heffect hremove, ?_⟩
    intro u hu
    generalize a.action = action at hremove
    cases hremove with
    | finish =>
      obtain rfl := List.mem_singleton.mp hu
      trivial
    | _ => cases hu
  | deleteMinioObjects =>
    have hsystem := systemStep_of_step hstep
    generalize a.action = action at hsystem
    cases hsystem
    exact ⟨trivial, fun u hu => absurd hu List.not_mem_nil⟩

end Knows

theorem Recorded.postedOf {r : Registry} {created : List Created}
    (h : Recorded r created) (codes : Codes) (data : Option NewProject) :
    Posted codes data r (projectsPost codes data r).1 (projectsPost codes data r).2 :=
  posted_of_projectsPost fun _ hrow => h.fresh _ (List.mem_map_of_mem hrow)

/-- What holds in every deployment that can be reached. -/
structure Deployment.Sound (d : Deployment) : Prop where
  recorded : Recorded d.registry d.created
  knows : ∀ t, .system t ∈ d.pool.processes → Knows d.registry t

section Run
variable {settings : Settings} {d d' : Deployment}

theorem knows_of_arriving {r : Registry} {t : SystemProcess} (h : Arriving (.system t)) :
    Knows r t := by
  cases t with
  | projectDelete q =>
    have hphase : q.phase = .received := by simpa [Arriving] using h
    exact ⟨by simp [hphase], by simp [hphase]⟩
  | removeProject => cases h
  | service | deleteMinioObjects => trivial

/-- What a step of a process keeps, with what the processes that it leaves rely on. -/
theorem extends_deployed {r : Registry} {created : List Created} {t t' : DeployedProcess}
    {s' : Storage} {started : List DeployedProcess} (h : Recorded r created)
    (hknows : ∀ u, t = .system u → Knows r u)
    (hstep : DeployedStep settings r.toStorage t s' t' started) :
    Extends r { s' with nextDpId := r.nextDpId } ∧
      Recorded { s' with nextDpId := r.nextDpId } created ∧
      ∀ u, .system u ∈ t' :: started → Knows { s' with nextDpId := r.nextDpId } u := by
  cases hstep with
  | @system t t' a s' started hsystem =>
    have heffect := effect_of_step (systemStep_of_step hsystem)
    have hknows := hknows t rfl
    obtain ⟨ht', hstarted⟩ := knows_step h hknows hsystem
    refine ⟨extends_effect heffect, h.effect hknows heffect, ?_⟩
    intro u hu
    rcases List.mem_cons.mp hu with hu | hu
    · cases hu
      exact ht'
    · obtain ⟨v, hv, heq⟩ := List.mem_map.mp hu
      obtain rfl : v = u := DeployedProcess.system.inj heq
      exact hstarted v hv
  | runDelete hdelete =>
    obtain ⟨hdb, haccess⟩ := hdelete.same
    have hproviders := Database.providerColumns_congr (congrArg Database.dataproviders hdb)
    have hprojects := Database.projectColumns_congr (congrArg Database.projects hdb)
    refine ⟨extends_congr hproviders hprojects le_rfl, h.congr hproviders hprojects haccess le_rfl,
      ?_⟩
    intro u hu
    rcases List.mem_cons.mp hu with hu | hu
    · cases hu
    · obtain ⟨files, -, heq⟩ := Option.map_eq_some_iff.mp (Option.mem_toList.mp hu)
      cases heq
      trivial

theorem Deployment.Sound.step (h : d.Sound) (hstep : Deployment.Step settings d d') :
    d'.Sound := by
  obtain ⟨hrecorded, hknows⟩ := h
  cases hstep with
  | @create codes data r result hpost =>
    have hposted := hrecorded.postedOf codes data
    rw [hpost] at hposted
    exact ⟨hrecorded.posted hposted, fun t ht => (hknows t ht).extends (extends_posted hposted)⟩
  | arrive harriving =>
    refine ⟨hrecorded, ?_⟩
    intro u hu
    rcases List.mem_append.mp hu with hu | hu
    · exact hknows u hu
    · obtain rfl := List.mem_singleton.mp hu
      exact knows_of_arriving harriving
  | run hrun =>
    obtain ⟨before, t, after, s', t', started, hlist, -, hprogram, rfl⟩ :=
      Pool.step_eq_some.mp hrun
    have ht : ∀ u, t = .system u → Knows d.registry u := fun u hu =>
      hknows u (by simp [hlist, hu])
    obtain ⟨hextends, hnext, hleft⟩ :=
      extends_deployed hrecorded ht (deployedStep_of_step hprogram)
    refine ⟨hnext, ?_⟩
    have hold : ∀ u, .system u ∈ before ++ after → Knows { s' with nextDpId := d.nextDpId } u := by
      intro u hu
      refine (hknows u ?_).extends hextends
      rw [hlist]
      simp only [List.mem_append, List.mem_cons] at hu ⊢
      exact hu.imp id .inr
    intro u hu
    simp only [List.mem_append, List.mem_cons] at hu
    rcases hu with (hu | hu | hu) | hu
    · exact hold u (List.mem_append_left _ hu)
    · exact hleft u (List.mem_cons.mpr (.inl hu))
    · exact hold u (List.mem_append_right _ hu)
    · exact hleft u (List.mem_cons_of_mem _ hu)

theorem sound_new : Deployment.new.Sound where
  recorded := by
    constructor
    all_goals simp [Deployment.new, Deployment.registry, Database.providerColumns,
      Database.projectColumns]
  knows := fun t ht => absurd ht List.not_mem_nil

theorem sound_of_reaches (h : Deployment.Reaches settings .new d) : d.Sound := by
  induction h with
  | refl => exact sound_new
  | tail _ hstep ih => exact ih.step hstep

end Run
/-- The project is as its document described it, and its tokens are those of the answer. -/
structure InForce (s : Storage) (c : Created) : Prop where
  describes : ∃ row, c.document.Describes row ∧ row.parties = c.response.updateTokens.length ∧
    projectGet s c.response.projectId (some c.response.resultToken) = .ok ⟨row,
      s.db.getNumberPartiesUploaded c.response.projectId,
      0 < s.db.getErroredUploadsCount c.response.projectId⟩
  complete : s.db.Complete c.response.projectId
  providers : (s.db.parties c.response.projectId).map DataproviderRow.token =
    c.response.updateTokens
  update : ∀ t ∈ c.response.updateTokens,
    precheckUploadToken s.db c.response.projectId (some t) = .ok t
  ownProject : ∀ t ∈ c.response.updateTokens, ∀ projectId, s.db.UpdateTokenOf projectId t →
    projectId = c.response.projectId
  result : ∀ t, s.checkProjectAuth c.response.projectId t ↔ t = some c.response.resultToken

section InForce
variable {settings : Settings} {d : Deployment} {c : Created}

theorem Recorded.uniqueColumns {r : Registry} {created : List Created}
    (h : Recorded r created) : r.db.UniqueColumns where
  projectIds := map_projectId_projectColumns r.db ▸ h.projectIds
  tokens := map_token_providerColumns r.db ▸ h.tokens

theorem getProject_of_mem {db : Database} (hkeys : db.UniqueColumns) {row : ProjectRow}
    (hrow : row ∈ db.projects) (hunmarked : row.markedForDeletion = false) :
    db.getProject row.projectId = some row := by
  unfold Database.getProject
  cases hfind : db.projects.find? fun x =>
      x.projectId = row.projectId ∧ x.markedForDeletion = false with
  | none =>
    have hne := List.find?_eq_none.mp hfind row hrow
    simp [hunmarked] at hne
  | some x =>
    obtain ⟨hid, -⟩ : x.projectId = row.projectId ∧ x.markedForDeletion = false := by
      simpa using List.find?_some hfind
    rw [List.inj_on_of_nodup_map hkeys.projectIds (List.mem_of_find?_eq_some hfind) hrow hid]

/-- The result token of a project opens its description. -/
theorem projectGet_of_mem {s : Storage} (hkeys : s.db.UniqueColumns) {row : ProjectRow}
    (hrow : row ∈ s.db.projects) (hunmarked : row.markedForDeletion = false)
    {resultToken : Token} (haccess : s.accessTokens.get? row.projectId = some resultToken) :
    projectGet s row.projectId (some resultToken) = .ok ⟨row,
      s.db.getNumberPartiesUploaded row.projectId,
      0 < s.db.getErroredUploadsCount row.projectId⟩ := by
  have hcheck := (Database.checkProjectExists_iff hkeys row.projectId).mpr
    ⟨row, hrow, rfl, hunmarked⟩
  have hauth := (checkProjectAuth_iff hkeys.projectIds hrow haccess (some resultToken)).mpr rfl
  have hactive := getProject_of_mem hkeys hrow hunmarked
  have htype : s.getResultType row.projectId = .ok row.resultType := by
    rw [Storage.getResultType, Database.findProject_of_mem hkeys.projectIds hrow]
    rfl
  have hexists : abortIfProjectDoesntExist s.db row.projectId = .ok () := if_pos hcheck
  have hresult : abortIfInvalidResultsToken s row.projectId (some resultToken) = .ok () :=
    if_pos hauth
  have htoken : authorizationTokenType s row.projectId (some resultToken) = .ok .resultToken :=
    if_pos hauth
  have hauthorised : authoriseGetRequest s row.projectId (some resultToken) = .ok () := by
    unfold authoriseGetRequest getAuthorizationTokenTypeOrAbort
    simp only [orRaise, Option.elim_some, ok_bind, hexists, hactive, htoken, htype, hresult]
    cases row.resultType <;> rfl
  rw [projectGet, hexists, hauthorised, hactive]
  rfl

theorem tokensOf_providerColumns (db : Database) (projectId : ProjectId) :
    tokensOf db.providerColumns projectId =
      (db.parties projectId).map DataproviderRow.token := by
  rw [tokensOf, Database.providerColumns, List.filter_map, List.map_map]
  rfl

/-- While the deletion of a project has not been requested, the project is as its creation was
answered, whatever other projects, uploads, runs and deletions are under way. -/
theorem inForce_of_reaches (h : Deployment.Reaches settings .new d) (hc : c ∈ d.created)
    (hexists : d.pool.shared.db.ProjectExists c.response.projectId) :
    InForce d.pool.shared c := by
  obtain ⟨hrecorded, -⟩ := sound_of_reaches h
  have hkeys : d.pool.shared.db.UniqueColumns := hrecorded.uniqueColumns
  obtain ⟨column, hregistered⟩ := hrecorded.registered c hc
  obtain ⟨row, hrow, rfl⟩ := List.mem_map.mp hregistered.mem
  have hid : row.projectId = c.response.projectId := hregistered.projectId
  obtain ⟨row', hrow', hid', hunmarked⟩ := hexists
  obtain rfl : row' = row :=
    List.inj_on_of_nodup_map hkeys.projectIds hrow' hrow (hid'.trans hid.symm)
  have hget : d.pool.shared.db.findProject c.response.projectId = some row' :=
    hid ▸ Database.findProject_of_mem hkeys.projectIds hrow
  have htokens : (d.pool.shared.db.parties row'.projectId).map DataproviderRow.token =
      c.response.updateTokens :=
    (tokensOf_providerColumns _ _).symm.trans (hregistered.unmarked hunmarked)
  rw [hid] at htokens
  have howner : ∀ t ∈ c.response.updateTokens, ∃ p ∈ d.pool.shared.db.dataproviders,
      p.token = t ∧ p.project = c.response.projectId := by
    intro t ht
    rw [← htokens] at ht
    obtain ⟨p, hp, rfl⟩ := List.mem_map.mp ht
    obtain ⟨hmem, hproject⟩ := List.mem_filter.mp hp
    exact ⟨p, hmem, rfl, of_decide_eq_true hproject⟩
  have hdescribes := hregistered.describes
  refine ⟨⟨row', ?_, hregistered.parties, ?_⟩, ⟨row', hget, ?_⟩, htokens, ?_, ?_, ?_⟩
  · exact ⟨hdescribes.schema, hdescribes.ofType, hdescribes.number, hdescribes.blocking,
      hdescribes.two_le, hdescribes.multiParty⟩
  · rw [← hid]
    exact projectGet_of_mem hkeys hrow hunmarked hregistered.access
  · exact hregistered.parties.trans (by rw [← htokens, List.length_map])
  · intro t ht
    obtain ⟨p, hp, hpt, -⟩ := howner t ht
    rw [precheckUploadToken_some hkeys ⟨row', hrow, hid, hunmarked⟩, if_pos ⟨p, hp, hpt⟩]
  · rintro t ht projectId ⟨q, hq, hqt, rfl⟩
    obtain ⟨p, hp, hpt, hproject⟩ := howner t ht
    rw [← hproject, List.inj_on_of_nodup_map hkeys.tokens hq hp (hqt.trans hpt.symm)]
  · intro t
    rw [← hid]
    exact checkProjectAuth_iff hkeys.projectIds hrow hregistered.access t

/-- Codes that differ from those of another letter. -/
def lettered (c : Char) : Codes where
  projectId := String.ofList [c]
  resultToken := String.ofList [c, 'r']
  updateToken i := String.ofList (c :: List.replicate i 'u')

def permutationsDocument : NewProject := ⟨some (some 512), some "permutations", none, none⟩

def Deployment.create (d : Deployment) (codes : Codes) (document : NewProject) : Deployment :=
  let r := projectsPost codes (some document) d.registry
  ⟨⟨r.1.toStorage, d.pool.processes⟩, r.1.nextDpId,
    d.created ++ (createdBy (some document) r.2).toList⟩

theorem step_create (d : Deployment) (codes : Codes) (document : NewProject) :
    Deployment.Step settings d (d.create codes document) := .create rfl

theorem reaches_create (h : Deployment.Reaches settings .new d) (codes : Codes)
    (document : NewProject) : Deployment.Reaches settings .new (d.create codes document) :=
  h.tail (step_create d codes document)

/-- Two projects, of which the second is created with the codes of the first and refused. -/
theorem inForce_permutationsDocument :
    InForce ((Deployment.new.create (lettered 'p') permutationsDocument).create (lettered 'p')
      permutationsDocument).pool.shared
      ⟨permutationsDocument, ⟨"p", ["p", "pu"], "pr"⟩⟩ := by
  have h : Deployment.Reaches Tasks.defaultSettings .new .new := .refl
  have hfirst := reaches_create h (lettered 'p') permutationsDocument
  exact inForce_of_reaches (reaches_create hfirst (lettered 'p') permutationsDocument)
    (by decide) (by decide)

end InForce

structure AllOrNothing (codes : Codes) (data : Option NewProject) (r r' : Registry)
    (result : Except Error NewProjectResponse) : Prop where
  created : ∀ c, result = .ok c → ∃ p, Project.fromJson codes data = .ok p ∧ p.Storable r ∧
    r' = r.insertProject p ∧ c = p.response
  refused : ∀ e, result = .error e → r'.toStorage = r.toStorage ∧ r.nextDpId ≤ r'.nextDpId ∧
    ((∃ message, e = .problem 400 message ∧ ¬ ∃ d, data = some d ∧ ∃ row, d.Describes row) ∨
      e = .problem 500 "Problem creating new project" ∧
        ∃ p, Project.fromJson codes data = .ok p ∧ ¬ p.Storable r)

section Creations
variable {settings : Settings} {d d' : Deployment}

theorem Posted.allOrNothing {codes : Codes} {data : Option NewProject} {r r' : Registry}
    {result : Except Error NewProjectResponse} (h : Posted codes data r r' result) :
    AllOrNothing codes data r r' result := by
  cases h with
  | @created p hjson hnew =>
    constructor
    · intro c hc
      exact ⟨p, hjson, hnew, rfl, (Except.ok.inj hc).symm⟩
    · intro e he
      cases he
  | @denied message hjson =>
    constructor
    · intro c hc
      cases hc
    · intro e he
      refine ⟨rfl, le_rfl, .inl ⟨message, (Except.error.inj he).symm, ?_⟩⟩
      intro h
      have hok : (Project.fromJson codes data).isOk := fromJson_isOk_iff.mpr h
      rw [hjson] at hok
      cases hok
  | @failed p hjson hold next hle =>
    constructor
    · intro c hc
      cases hc
    · intro e he
      exact ⟨rfl, hle, .inr ⟨(Except.error.inj he).symm, p, hjson, hold⟩⟩

theorem projectsPost_allOrNothing (h : Deployment.Reaches settings .new d) (codes : Codes)
    (data : Option NewProject) : AllOrNothing codes data d.registry
      (projectsPost codes data d.registry).1 (projectsPost codes data d.registry).2 :=
  ((sound_of_reaches h).recorded.postedOf codes data).allOrNothing

theorem extends_step (h : d.Sound) (hstep : Deployment.Step settings d d') :
    Extends d.registry d'.registry := by
  obtain ⟨hrecorded, hknows⟩ := h
  cases hstep with
  | @create codes data r result hpost =>
    have hposted := hrecorded.postedOf codes data
    rw [hpost] at hposted
    exact extends_posted hposted
  | arrive => exact extends_congr rfl rfl le_rfl
  | run hrun =>
    obtain ⟨before, t, after, s', t', started, hlist, -, hprogram, rfl⟩ :=
      Pool.step_eq_some.mp hrun
    have ht : ∀ u, t = .system u → Knows d.registry u := fun u hu =>
      hknows u (by simp [hlist, hu])
    exact (extends_deployed hrecorded ht (deployedStep_of_step hprogram)).1

theorem Extends.trans {r r' r'' : Registry} (h : Extends r r') (h' : Extends r' r'') :
    Extends r r'' where
  projects := fun projectId hmem => h'.projects _ (h.projects projectId hmem)
  marked := fun projectId hmarked => h'.marked _ (h.marked projectId hmarked)
  providers := fun d hd => (h'.providers d hd).elim (h.providers d) fun hle =>
    .inr (h.next.trans hle)
  next := h.next.trans h'.next

theorem extends_of_reaches (h : d.Sound) (h' : Deployment.Reaches settings d d') :
    Extends d.registry d'.registry := by
  have hrun : d'.Sound ∧ Extends d.registry d'.registry := by
    induction h' with
    | refl => exact ⟨h, extends_congr rfl rfl le_rfl⟩
    | tail _ hstep ih => exact ⟨ih.1.step hstep, ih.2.trans (extends_step ih.1 hstep)⟩
  exact hrun.2

/-- An id of a data provider is never given to another one, not even after its deletion, so what
still refers to it cannot reach the data of another project. -/
theorem provider_of_id (h : Deployment.Reaches settings .new d)
    (h' : Deployment.Reaches settings d d') {x y : DpId × Token × ProjectId}
    (hx : x ∈ d.pool.shared.db.providerColumns) (hy : y ∈ d'.pool.shared.db.providerColumns)
    (hid : x.1 = y.1) : x = y := by
  have hsound := sound_of_reaches h
  rcases (extends_of_reaches hsound h').providers y hy with hy | hle
  · exact List.inj_on_of_nodup_map hsound.recorded.ids hx hy hid
  · have hlt : x.1 < d.nextDpId := hsound.recorded.fresh x hx
    exact absurd (hid ▸ hle) (not_le_of_gt hlt)

theorem projectsPost_allOrNothing_new : AllOrNothing (lettered 'p') (some permutationsDocument)
    Deployment.new.registry
    (projectsPost (lettered 'p') (some permutationsDocument) Deployment.new.registry).1
    (projectsPost (lettered 'p') (some permutationsDocument) Deployment.new.registry).2 := by
  have h : Deployment.Reaches Tasks.defaultSettings .new .new := .refl
  exact projectsPost_allOrNothing h (lettered 'p') (some permutationsDocument)

/-- The first provider, before and after another project is created. -/
theorem provider_of_id_one : ∃ y ∈ ((Deployment.new.create (lettered 'p')
      permutationsDocument).create (lettered 'q')
        permutationsDocument).pool.shared.db.providerColumns,
    y.1 = 1 ∧ (1, "p", "p") = y := by
  have h : Deployment.Reaches Tasks.defaultSettings .new .new := .refl
  have hfirst := reaches_create h (lettered 'p') permutationsDocument
  have hmem : ((1, "p", "p") : DpId × Token × ProjectId) ∈ ((Deployment.new.create (lettered 'p')
      permutationsDocument).create (lettered 'q')
        permutationsDocument).pool.shared.db.providerColumns := by decide
  exact ⟨(1, "p", "p"), hmem, rfl, provider_of_id hfirst
    (.single (step_create _ (lettered 'q') permutationsDocument)) (by decide) hmem rfl⟩

end Creations
end EntityService.Models
