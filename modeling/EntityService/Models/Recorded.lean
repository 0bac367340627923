import EntityService.Models.Deployment

/-! The projects that have been created and the tokens that were answered for them. A project
keeps its providers until its own deletion: the ids that a deletion has gathered are those of no
other project, whatever is created meanwhile. -/
namespace EntityService.Models
open Lib Service Tasks.ProjectCleanup

/-- The update tokens of a project in the order of its data providers. -/
def tokensOf (providers : List (DpId × Token × ProjectId)) (projectId : ProjectId) : List Token :=
  (providers.filter fun d => d.2.2 = projectId).map fun d => d.2.1

section TokensOf
variable (l l' : List (DpId × Token × ProjectId)) (projectId projectId' : ProjectId)

theorem tokensOf_append : tokensOf (l ++ l') projectId =
    tokensOf l projectId ++ tokensOf l' projectId := by
  rw [tokensOf, List.filter_append, List.map_append]
  rfl

theorem tokensOf_eq_nil (h : ∀ d ∈ l, d.2.2 ≠ projectId) : tokensOf l projectId = [] := by
  have hnil : l.filter (fun d => d.2.2 = projectId) = [] :=
    List.filter_eq_nil_iff.mpr fun d hd => by simpa using h d hd
  rw [tokensOf, hnil]
  rfl

theorem tokensOf_eq_map (h : ∀ d ∈ l, d.2.2 = projectId) :
    tokensOf l projectId = l.map fun d => d.2.1 := by
  have hall : l.filter (fun d => d.2.2 = projectId) = l :=
    List.filter_eq_self.mpr fun d hd => by simpa using h d hd
  rw [tokensOf, hall]

end TokensOf

/-- What the tables say about a project that has been created. -/
structure Registered (r : Registry) (c : Created) (row : ProjectRow) : Prop where
  mem : row ∈ r.db.projectColumns
  projectId : row.projectId = c.response.projectId
  describes : c.document.Describes row
  parties : row.parties = c.response.updateTokens.length
  access : r.accessTokens.get? row.projectId = some c.response.resultToken
  providers : (tokensOf r.db.providerColumns row.projectId).Sublist c.response.updateTokens
  unmarked : row.markedForDeletion = false →
    tokensOf r.db.providerColumns row.projectId = c.response.updateTokens

structure Recorded (r : Registry) (created : List Created) : Prop where
  fresh : ∀ d ∈ r.db.providerColumns, d.1 < r.nextDpId
  ids : (r.db.providerColumns.map fun d => d.1).Nodup
  tokens : (r.db.providerColumns.map fun d => d.2.1).Nodup
  projectIds : (r.db.projectColumns.map ProjectRow.projectId).Nodup
  owned : ∀ d ∈ r.db.providerColumns, d.2.2 ∈ r.db.projectColumns.map ProjectRow.projectId
  registered : ∀ c ∈ created, ∃ row, Registered r c row

/-- The project exists and has been marked for deletion. -/
def Marked (r : Registry) (projectId : ProjectId) : Prop :=
  ∃ row ∈ r.db.projectColumns, row.projectId = projectId ∧ row.markedForDeletion = true

/-- What a deletion under way relies on. -/
def Knows (r : Registry) : SystemProcess → Prop
  | .projectDelete q =>
    (q.phase = .exists ∨ q.phase = .authorized →
        q.projectId ∈ r.db.projectColumns.map ProjectRow.projectId) ∧
      (q.phase = .marked ∨ q.phase = .accepted → Marked r q.projectId)
  | .removeProject t => Marked r t.projectId ∧ ∀ dpId ∈ t.deleted.dpIds, dpId < r.nextDpId ∧
      ∀ d ∈ r.db.providerColumns, d.1 = dpId → d.2.2 = t.projectId
  | _ => True

/-- What creations and deletions leave of what a deletion under way relies on. -/
structure Extends (r r' : Registry) : Prop where
  projects : ∀ projectId ∈ r.db.projectColumns.map ProjectRow.projectId,
    projectId ∈ r'.db.projectColumns.map ProjectRow.projectId
  marked : ∀ projectId, Marked r projectId → Marked r' projectId
  providers : ∀ d ∈ r'.db.providerColumns, d ∈ r.db.providerColumns ∨ r.nextDpId ≤ d.1
  next : r.nextDpId ≤ r'.nextDpId

theorem Knows.extends {r r' : Registry} {t : SystemProcess} (h : Knows r t)
    (hextends : Extends r r') : Knows r' t := by
  cases t with
  | projectDelete q =>
    obtain ⟨hexists, hmarked⟩ := h
    exact ⟨fun hphase => hextends.projects _ (hexists hphase),
      fun hphase => hextends.marked _ (hmarked hphase)⟩
  | removeProject t =>
    obtain ⟨hmarked, hdps⟩ := h
    refine ⟨hextends.marked _ hmarked, ?_⟩
    intro dpId hdp
    obtain ⟨hlt, hproject⟩ := hdps dpId hdp
    refine ⟨lt_of_lt_of_le hlt hextends.next, ?_⟩
    intro d hd hid
    rcases hextends.providers d hd with hd | hle
    · exact hproject d hd hid
    · exact absurd (hid ▸ hle) (not_le_of_gt hlt)
  | service | deleteMinioObjects => trivial

section Congr
variable {r r' : Registry} {created : List Created}

theorem extends_congr (hproviders : r'.db.providerColumns = r.db.providerColumns)
    (hprojects : r'.db.projectColumns = r.db.projectColumns) (hnext : r.nextDpId ≤ r'.nextDpId) :
    Extends r r' where
  projects := fun _ h => hprojects ▸ h
  marked := fun _ h => by
    rw [Marked, hprojects]
    exact h
  providers := fun _ h => .inl (hproviders ▸ h)
  next := hnext

theorem Recorded.congr (h : Recorded r created)
    (hproviders : r'.db.providerColumns = r.db.providerColumns)
    (hprojects : r'.db.projectColumns = r.db.projectColumns)
    (htokens : r'.accessTokens = r.accessTokens) (hnext : r.nextDpId ≤ r'.nextDpId) :
    Recorded r' created where
  fresh := fun d hd => lt_of_lt_of_le (h.fresh d (hproviders ▸ hd)) hnext
  ids := hproviders ▸ h.ids
  tokens := hproviders ▸ h.tokens
  projectIds := hprojects ▸ h.projectIds
  owned := fun d hd => hprojects ▸ h.owned d (hproviders ▸ hd)
  registered := fun c hc => by
    obtain ⟨row, h⟩ := h.registered c hc
    refine ⟨row, hprojects ▸ h.mem, h.projectId, h.describes, h.parties, htokens ▸ h.access, ?_, ?_⟩
    · exact hproviders ▸ h.providers
    · exact hproviders ▸ h.unmarked

end Congr

theorem createdBy_error (data : Option NewProject) (e : Error) :
    createdBy data (.error e) = none := by
  cases data <;> rfl

section Posted
variable {codes : Codes} {data : Option NewProject} {r r' : Registry} {p : Project}
  {created : List Created} {result : Except Error NewProjectResponse}

def newColumns (r : Registry) (p : Project) : List (DpId × Token × ProjectId) :=
  (providerRows p.projectId r.nextDpId p.updateTokens).map fun d => (d.id, d.token, d.project)

theorem providerColumns_insertProject : (r.insertProject p).db.providerColumns =
    r.db.providerColumns ++ newColumns r p := List.map_append

theorem projectColumns_insertProject : (r.insertProject p).db.projectColumns =
    r.db.projectColumns ++ [p.row] :=
  List.map_append

theorem of_mem_newColumns {d : DpId × Token × ProjectId} (h : d ∈ newColumns r p) :
    d.2.2 = p.projectId ∧ r.nextDpId ≤ d.1 ∧ d.1 < r.nextDpId + p.updateTokens.length := by
  obtain ⟨row, hrow, rfl⟩ := List.mem_map.mp h
  have hid := List.mem_map_of_mem (f := DataproviderRow.id) hrow
  rw [map_id_providerRows] at hid
  exact ⟨(of_mem_providerRows _ _ _ hrow).1, List.mem_range'_1.mp hid⟩

theorem map_token_newColumns : (newColumns r p).map (fun d => d.2.1) = p.updateTokens := by
  rw [newColumns, List.map_map]
  exact map_token_providerRows _ _ _

theorem map_id_newColumns : (newColumns r p).map (fun d => d.1) =
    List.range' r.nextDpId p.updateTokens.length := by
  rw [newColumns, List.map_map]
  exact map_id_providerRows _ _ _

theorem map_token_providerColumns (db : Database) :
    db.providerColumns.map (fun d => d.2.1) = db.dataproviders.map DataproviderRow.token := by
  rw [Database.providerColumns, List.map_map]
  rfl

theorem map_projectId_projectColumns (db : Database) :
    db.projectColumns.map ProjectRow.projectId = db.projects.map ProjectRow.projectId := by
  rw [Database.projectColumns, List.map_map]
  rfl

theorem tokensOf_insertProject (projectId : ProjectId) :
    tokensOf (r.insertProject p).db.providerColumns projectId =
      tokensOf r.db.providerColumns projectId ++
        if projectId = p.projectId then p.updateTokens else [] := by
  rw [providerColumns_insertProject, tokensOf_append]
  congr 1
  split_ifs with h
  · subst h
    rw [tokensOf_eq_map _ _ fun d hd => (of_mem_newColumns hd).1]
    exact map_token_newColumns
  · exact tokensOf_eq_nil _ _ fun d hd he => h (he ▸ (of_mem_newColumns hd).1)

theorem Registered.insertProject {c : Created} {row : ProjectRow} (h : Registered r c row)
    (hne : row.projectId ≠ p.projectId) : Registered (r.insertProject p) c row := by
  have htokens := tokensOf_insertProject (r := r) (p := p) row.projectId
  rw [if_neg hne, List.append_nil] at htokens
  refine ⟨?_, h.projectId, h.describes, h.parties, ?_, htokens ▸ h.providers,
    htokens ▸ h.unmarked⟩
  · rw [projectColumns_insertProject]
    exact List.mem_append_left _ h.mem
  · exact (Dict.get?_set_of_ne _ _ hne).trans h.access

/-- A project is stored with the providers that the response names. -/
theorem registered_insertProject {document : NewProject} (hdescribes : document.Describes p.row)
    (howned : tokensOf r.db.providerColumns p.projectId = []) :
    Registered (r.insertProject p) ⟨document, p.response⟩ p.row := by
  have htokens := tokensOf_insertProject (r := r) (p := p) p.projectId
  rw [howned, if_pos rfl, List.nil_append] at htokens
  refine ⟨?_, rfl, hdescribes, p.length_updateTokens.symm, Dict.get?_set_self _ _ _, ?_,
    fun _ => htokens⟩
  · rw [projectColumns_insertProject]
    exact List.mem_append_right _ (List.mem_singleton_self _)
  · exact htokens ▸ List.Sublist.refl _

theorem extends_posted (h : Posted codes data r r' result) : Extends r r' := by
  cases h with
  | @created p _ _ =>
    constructor
    · intro projectId hmem
      rw [projectColumns_insertProject, List.map_append]
      exact List.mem_append_left _ hmem
    · rintro projectId ⟨row, hrow, hmarked⟩
      refine ⟨row, ?_, hmarked⟩
      rw [projectColumns_insertProject]
      exact List.mem_append_left _ hrow
    · intro d hd
      rw [providerColumns_insertProject] at hd
      exact (List.mem_append.mp hd).imp id fun hd => (of_mem_newColumns hd).2.1
    · exact Nat.le_add_right _ _
  | denied => exact extends_congr rfl rfl le_rfl
  | failed _ _ hle => exact extends_congr rfl rfl hle

theorem Recorded.posted (h : Recorded r created) (hposted : Posted codes data r r' result) :
    Recorded r' (created ++ (createdBy data result).toList) := by
  cases hposted with
  | denied =>
    rw [createdBy_error, Option.toList_none, List.append_nil]
    exact h
  | failed _ _ hle =>
    rw [createdBy_error, Option.toList_none, List.append_nil]
    exact h.congr rfl rfl rfl hle
  | @created p hjson hnew =>
    obtain ⟨document, rfl, hdescribes, -⟩ := fromJson_eq_ok hjson
    have hproject : p.projectId ∉ r.db.projectColumns.map ProjectRow.projectId := by
      rw [map_projectId_projectColumns]
      exact hnew.projectId
    have hnone : tokensOf r.db.providerColumns p.projectId = [] :=
      tokensOf_eq_nil _ _ fun d hd he => hproject (he ▸ h.owned d hd)
    constructor
    · intro d hd
      rw [providerColumns_insertProject] at hd
      rcases List.mem_append.mp hd with hd | hd
      · exact lt_of_lt_of_le (h.fresh d hd) (Nat.le_add_right _ _)
      · exact (of_mem_newColumns hd).2.2
    · rw [providerColumns_insertProject, List.map_append, map_id_newColumns]
      apply h.ids.append List.nodup_range'
      intro dpId hold hdp
      obtain ⟨d, hd, rfl⟩ := List.mem_map.mp hold
      exact absurd (h.fresh d hd) (not_lt_of_ge (List.mem_range'_1.mp hdp).1)
    · rw [providerColumns_insertProject, List.map_append, map_token_newColumns]
      apply h.tokens.append hnew.tokens.1
      intro t hold ht
      rw [map_token_providerColumns] at hold
      exact hnew.tokens.2 t ht hold
    · rw [projectColumns_insertProject, List.map_append]
      apply h.projectIds.append (List.nodup_singleton _)
      exact List.disjoint_singleton.mpr hproject
    · intro d hd
      rw [projectColumns_insertProject, List.map_append]
      rw [providerColumns_insertProject] at hd
      rcases List.mem_append.mp hd with hd | hd
      · exact List.mem_append_left _ (h.owned d hd)
      · rw [(of_mem_newColumns hd).1]
        exact List.mem_append_right _ (List.mem_singleton_self _)
    · intro c hc
      rcases List.mem_append.mp hc with hc | hc
      · obtain ⟨row, hregistered⟩ := h.registered c hc
        refine ⟨row, hregistered.insertProject ?_⟩
        intro he
        exact hproject (he ▸ List.mem_map_of_mem hregistered.mem)
      · obtain rfl := List.mem_singleton.mp hc
        exact ⟨p.row, registered_insertProject hdescribes hnone⟩

end Posted
section Effect
variable {r : Registry} {s' : Storage} {t : SystemProcess} {created : List Created}

theorem providerColumns_deleteDataproviders (db : Database) (dpIds : List DpId) :
    (db.deleteDataproviders dpIds).providerColumns =
      db.providerColumns.filter fun d => d.1 ∉ dpIds := by
  rw [Database.providerColumns, Database.providerColumns, List.filter_map]
  rfl

/-- The row once the deletion of its project has been requested. -/
def afterMark (projectId : ProjectId) (row : ProjectRow) : ProjectRow :=
  if row.projectId = projectId then { row with markedForDeletion := true } else row

theorem projectId_afterMark (projectId : ProjectId) (row : ProjectRow) :
    (afterMark projectId row).projectId = row.projectId := by
  unfold afterMark
  split_ifs <;> rfl

theorem projectColumns_markProjectDeleted (db : Database) (projectId : ProjectId) :
    (db.markProjectDeleted projectId).projectColumns =
      db.projectColumns.map (afterMark projectId) := by
  unfold Database.projectColumns Database.markProjectDeleted afterMark
  rw [List.map_map, List.map_map]
  apply List.map_congr_left
  intro row _
  by_cases h : row.projectId = projectId <;> simp [h]

theorem map_projectId_markProjectDeleted (db : Database) (projectId : ProjectId) :
    (db.markProjectDeleted projectId).projectColumns.map ProjectRow.projectId =
      db.projectColumns.map ProjectRow.projectId := by
  rw [projectColumns_markProjectDeleted, List.map_map]
  exact List.map_congr_left fun row _ => projectId_afterMark projectId row

theorem mem_projectColumns_markProjectDeleted {db : Database} {row : ProjectRow}
    (projectId : ProjectId) (h : row ∈ db.projectColumns) :
    afterMark projectId row ∈ (db.markProjectDeleted projectId).projectColumns :=
  projectColumns_markProjectDeleted db projectId ▸ List.mem_map_of_mem h

theorem tokensOf_filter {l : List (DpId × Token × ProjectId)} (projectId : ProjectId)
    (dpIds : List DpId) (h : ∀ d ∈ l, d.2.2 = projectId → d.1 ∉ dpIds) :
    tokensOf (l.filter fun d => d.1 ∉ dpIds) projectId = tokensOf l projectId := by
  unfold tokensOf
  rw [List.filter_filter]
  congr 1
  apply List.filter_congr
  intro d hd
  by_cases hp : d.2.2 = projectId
  · simp [hp, h d hd hp]
  · simp [hp]

theorem extends_effect (heffect : Effect r.toStorage t s') :
    Extends r { s' with nextDpId := r.nextDpId } := by
  cases heffect with
  | keep hproviders hprojects _ => exact extends_congr hproviders hprojects le_rfl
  | mark =>
    refine ⟨?_, ?_, fun _ h => .inl h, le_rfl⟩
    · intro projectId hmem
      exact (map_projectId_markProjectDeleted r.db _).symm ▸ hmem
    · rintro projectId ⟨row, hrow, hid, hmarked⟩
      refine ⟨_, mem_projectColumns_markProjectDeleted _ hrow,
        (projectId_afterMark _ _).trans hid, ?_⟩
      unfold afterMark
      split_ifs
      · rfl
      · exact hmarked
  | @delete t =>
    refine ⟨fun _ h => h, fun _ h => h, fun d hd => .inl ?_, le_rfl⟩
    exact List.mem_of_mem_filter
      ((providerColumns_deleteDataproviders r.db t.deleted.dpIds) ▸ hd)

theorem Recorded.markProjectDeleted (h : Recorded r created) (projectId : ProjectId) :
    Recorded { r.markProjectDeleted projectId with nextDpId := r.nextDpId } created where
  fresh := h.fresh
  ids := h.ids
  tokens := h.tokens
  projectIds := (map_projectId_markProjectDeleted r.db projectId).symm ▸ h.projectIds
  owned := fun d hd => (map_projectId_markProjectDeleted r.db projectId).symm ▸ h.owned d hd
  registered := fun c hc => by
    obtain ⟨row, h⟩ := h.registered c hc
    have hrow := mem_projectColumns_markProjectDeleted projectId h.mem
    unfold afterMark at hrow
    split_ifs at hrow with hid
    · exact ⟨_, hrow, h.projectId,
        ⟨h.describes.schema, h.describes.ofType, h.describes.number, h.describes.blocking,
          h.describes.two_le, h.describes.multiParty⟩,
        h.parties, h.access, h.providers, fun hunmarked => Bool.noConfusion hunmarked⟩
    · exact ⟨row, hrow, h.projectId, h.describes, h.parties, h.access, h.providers, h.unmarked⟩

/-- A deletion takes providers from its own project only. -/
theorem Recorded.commitDeleted (h : Recorded r created) {t : RemoveProject}
    (hknows : Knows r (.removeProject t)) :
    Recorded { r.commitDeleted t.deleted with nextDpId := r.nextDpId } created := by
  obtain ⟨⟨row, hrow, hid, hmarked⟩, hdps⟩ := hknows
  have hcolumns := providerColumns_deleteDataproviders r.db t.deleted.dpIds
  have hsub : (r.db.deleteDataproviders t.deleted.dpIds).providerColumns.Sublist
      r.db.providerColumns := hcolumns ▸ List.filter_sublist
  refine ⟨fun d hd => h.fresh d (hsub.subset hd), h.ids.sublist (hsub.map _),
    h.tokens.sublist (hsub.map _), h.projectIds, fun d hd => h.owned d (hsub.subset hd), ?_⟩
  intro c hc
  obtain ⟨row', h'⟩ := h.registered c hc
  refine ⟨row', h'.mem, h'.projectId, h'.describes, h'.parties, h'.access, ?_, ?_⟩
  · exact ((hsub.filter _).map _).trans h'.providers
  · intro hunmarked
    -- the project is not the one that the deletion has marked
    have hne : row'.projectId ≠ t.projectId := by
      intro he
      obtain rfl := List.inj_on_of_nodup_map h.projectIds hrow h'.mem (hid.trans he.symm)
      rw [hmarked] at hunmarked
      cases hunmarked
    show tokensOf (r.db.deleteDataproviders t.deleted.dpIds).providerColumns row'.projectId = _
    rw [hcolumns, tokensOf_filter _ _ ?_]
    · exact h'.unmarked hunmarked
    · intro d hd hp hdp
      exact hne (hp.symm.trans ((hdps d.1 hdp).2 d hd rfl))

theorem Recorded.effect (h : Recorded r created) (hknows : Knows r t)
    (heffect : Effect r.toStorage t s') :
    Recorded { s' with nextDpId := r.nextDpId } created := by
  cases heffect with
  | keep hproviders hprojects htokens => exact h.congr hproviders hprojects htokens le_rfl
  | mark => exact h.markProjectDeleted _
  | delete => exact h.commitDeleted hknows

end Effect
end EntityService.Models
