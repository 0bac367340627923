import EntityService.Models.Project

/-! What a request to create a project does. It stores the project with all its data providers
or changes no table, and the ids it has drawn are not used again. -/
namespace EntityService.Models
open Lib Service

/-- The document describes the project of a row, with the defaults of what it leaves out. -/
structure NewProject.Describes (d : NewProject) (row : ProjectRow) : Prop where
  schema : d.schema = some row.schemaLength
  ofType : d.resultType.bind (validResultTypes.lookup ·) = some row.resultType
  number : d.numberParties.getD 2 = row.parties
  blocking : row.usesBlocking = d.usesBlocking.getD false
  two_le : 2 ≤ row.parties
  multiParty : 2 < row.parties → row.resultType = .groups

/-- The rows of the data providers of a project, with ids from the first on. -/
def providerRows (projectId : ProjectId) (first : DpId) : List Token → List DataproviderRow
  | [] => []
  | authToken :: updateTokens => ⟨first, authToken, .notStarted, projectId⟩ ::
      providerRows projectId (first + 1) updateTokens

section Rows
variable (projectId : ProjectId) (first : DpId) (updateTokens : List Token)

@[simp] theorem map_token_providerRows :
    (providerRows projectId first updateTokens).map DataproviderRow.token = updateTokens := by
  induction updateTokens generalizing first with
  | nil => rfl
  | cons authToken updateTokens ih => rw [providerRows, List.map_cons, ih]

@[simp] theorem map_id_providerRows : (providerRows projectId first updateTokens).map
    DataproviderRow.id = List.range' first updateTokens.length := by
  induction updateTokens generalizing first with
  | nil => rfl
  | cons authToken updateTokens ih =>
    rw [providerRows, List.map_cons, ih, List.length_cons, List.range'_succ]

theorem of_mem_providerRows {d : DataproviderRow}
    (h : d ∈ providerRows projectId first updateTokens) :
    d.project = projectId ∧ d.uploaded = .notStarted := by
  induction updateTokens generalizing first with
  | nil => cases h
  | cons authToken updateTokens ih =>
    rcases List.mem_cons.mp h with rfl | h
    · exact ⟨rfl, rfl⟩
    · exact ih (first + 1) h

end Rows

/-- The sequence is ahead of the ids that have been drawn from it. -/
def Registry.Fresh (r : Registry) : Prop := ∀ d ∈ r.db.dataproviders, d.id < r.nextDpId

def Registry.insertProviderRows (r : Registry) (projectId : ProjectId) (updateTokens : List Token) :
    Registry :=
  { r with
    db := { r.db with
      dataproviders := r.db.dataproviders ++ providerRows projectId r.nextDpId updateTokens }
    nextDpId := r.nextDpId + updateTokens.length }

/-- The tokens can be stored beside those of the other data providers. -/
def Registry.Unused (r : Registry) (updateTokens : List Token) : Prop :=
  updateTokens.Nodup ∧ ∀ t ∈ updateTokens, t ∉ r.db.dataproviders.map DataproviderRow.token

instance (r : Registry) (updateTokens : List Token) : Decidable (r.Unused updateTokens) :=
  inferInstanceAs (Decidable (_ ∧ _))

section Describes
variable {codes : Codes} {data : Option NewProject} {p : Project}

theorem fromJson_eq_ok (h : Project.fromJson codes data = .ok p) :
    ∃ d, data = some d ∧ d.Describes p.row ∧ p.projectId = codes.projectId ∧
      p.resultToken = codes.resultToken ∧
      p.updateTokens = (List.range p.numberParties).map codes.updateToken := by
  obtain ⟨d, hd, h⟩ := bind_eq_ok.mp h
  obtain ⟨schema, hschema, h⟩ := bind_eq_ok.mp h
  obtain ⟨resultType, hresult, h⟩ := bind_eq_ok.mp h
  rw [orRaise_eq_ok] at hd hschema hresult
  have htwo := p.two_le
  have hmulti := p.multiParty
  dsimp only at h
  split_ifs at h with _ hle
  cases h
  refine ⟨d, hd, ⟨hschema, hresult, ?_, rfl, htwo, hmulti⟩, rfl, rfl, rfl⟩
  exact (Int.toNat_of_nonneg (by omega)).symm

/-- A document is accepted exactly when it describes a project. -/
theorem fromJson_isOk_iff : (Project.fromJson codes data).isOk ↔
    ∃ d, data = some d ∧ ∃ row, d.Describes row := by
  constructor
  · intro h
    cases hp : Project.fromJson codes data with
    | error message =>
      rw [hp] at h
      cases h
    | ok p =>
      obtain ⟨d, hd, hdescribes, -⟩ := fromJson_eq_ok hp
      exact ⟨d, hd, _, hdescribes⟩
  · rintro ⟨d, rfl, row, h⟩
    have hparties := h.number
    have htwo := h.two_le
    unfold Project.fromJson
    simp only [orRaise, Option.elim_some, ok_bind, h.schema, h.ofType]
    rw [dif_neg, dif_neg]
    · rfl
    · omega
    · rintro ⟨hmulti, hne⟩
      exact hne (h.multiParty (by omega))

end Describes

section Insert
variable {r : Registry} {projectId : ProjectId} {updateTokens : List Token}

theorem insertDataprovider_apply (projectId : ProjectId) (authToken : Token) (r : Registry) :
    insertDataprovider authToken projectId r =
      if r.nextDpId ∉ r.db.dataproviders.map DataproviderRow.id ∧
        authToken ∉ r.db.dataproviders.map DataproviderRow.token ∧
        projectId ∈ r.db.projects.map ProjectRow.projectId
      then (r.insertProviderRow authToken projectId, .ok r.nextDpId)
      else ({ r with nextDpId := r.nextDpId + 1 }, .error .databaseError) := by
  rw [insertDataprovider, Action.get_bind, Action.modify_bind]
  split_ifs with h
  · rw [ensure, if_pos h]
    rfl
  · rw [ensure, if_neg h]
    rfl

theorem Registry.Fresh.insertProviderRow (h : r.Fresh) (authToken : Token) :
    (r.insertProviderRow authToken projectId).Fresh := by
  intro d hd
  show d.id < r.nextDpId + 1
  rcases List.mem_append.mp hd with hd | hd
  · exact Nat.lt_succ_of_lt (h d hd)
  · obtain rfl := List.mem_singleton.mp hd
    exact Nat.lt_succ_self _

theorem Registry.unused_cons (projectId : ProjectId) {authToken : Token} :
    r.Unused (authToken :: updateTokens) ↔
      authToken ∉ r.db.dataproviders.map DataproviderRow.token ∧
        (r.insertProviderRow authToken projectId).Unused updateTokens := by
  unfold Registry.Unused Registry.insertProviderRow
  simp only [List.nodup_cons, List.forall_mem_cons, List.map_append, List.mem_append,
    List.map_cons, List.map_nil, List.mem_singleton, not_or]
  constructor
  · rintro ⟨⟨hnew, hnodup⟩, hold, hrest⟩
    exact ⟨hold, hnodup, fun t ht => ⟨hrest t ht, fun h => hnew (h ▸ ht)⟩⟩
  · rintro ⟨hold, hnodup, hrest⟩
    exact ⟨⟨fun hmem => (hrest _ hmem).2 rfl, hnodup⟩, hold, fun t ht => (hrest t ht).1⟩

/-- The providers are all inserted, or an id has been drawn for each of those that were tried. -/
theorem insertDataproviders_cases (updateTokens : List Token) (hfresh : r.Fresh)
    (hproject : projectId ∈ r.db.projects.map ProjectRow.projectId) :
    r.Unused updateTokens ∧ insertDataproviders projectId updateTokens r =
        (r.insertProviderRows projectId updateTokens,
          .ok (List.range' r.nextDpId updateTokens.length)) ∨
      ¬ r.Unused updateTokens ∧ ∃ r', insertDataproviders projectId updateTokens r =
        (r', .error .databaseError) ∧ r.nextDpId ≤ r'.nextDpId ∧
          r'.nextDpId ≤ r.nextDpId + updateTokens.length := by
  induction updateTokens generalizing r with
  | nil =>
    refine .inl ⟨⟨List.nodup_nil, by simp⟩, ?_⟩
    simp [insertDataproviders, Registry.insertProviderRows, providerRows]
  | cons authToken updateTokens ih =>
    have hid : r.nextDpId ∉ r.db.dataproviders.map DataproviderRow.id := by
      intro hmem
      obtain ⟨d, hd, he⟩ := List.mem_map.mp hmem
      exact (hfresh d hd).ne he
    rw [Registry.unused_cons projectId, insertDataproviders]
    by_cases hold : authToken ∉ r.db.dataproviders.map DataproviderRow.token
    · have hfirst := insertDataprovider_apply projectId authToken r
      rw [if_pos ⟨hid, hold, hproject⟩] at hfirst
      rw [Action.bind_of_ok hfirst]
      have hnext : (r.insertProviderRow authToken projectId).nextDpId = r.nextDpId + 1 := rfl
      rcases ih (hfresh.insertProviderRow authToken) hproject with
        ⟨hunused, hrest⟩ | ⟨hused, r', hrest, hle, hle'⟩
      · refine .inl ⟨⟨hold, hunused⟩, ?_⟩
        rw [Action.bind_of_ok hrest, List.length_cons, List.range'_succ, ← hnext]
        simp [Registry.insertProviderRows, Registry.insertProviderRow, providerRows,
          Nat.add_assoc, Nat.add_comm 1]
      · refine .inr ⟨fun h => hused h.2, r', Action.bind_of_error hrest, ?_, ?_⟩
        · exact (Nat.le_succ _).trans hle
        · rw [List.length_cons, Nat.add_comm _ 1, ← Nat.add_assoc, ← hnext]
          exact hle'
    · have hfirst := insertDataprovider_apply projectId authToken r
      rw [if_neg fun h => hold h.2.1] at hfirst
      refine .inr ⟨fun h => hold h.1, _, Action.bind_of_error hfirst, Nat.le_succ _, ?_⟩
      exact Nat.add_le_add_left (Nat.le_add_left 1 updateTokens.length) r.nextDpId

end Insert

/-- The keys of a project are those of no other project and of no other data provider, and its
number of parties fits into its column. -/
structure Project.Storable (p : Project) (r : Registry) : Prop where
  projectId : p.projectId ∉ r.db.projects.map ProjectRow.projectId
  smallint : p.numberParties < 2 ^ 15
  tokens : r.Unused p.updateTokens

def Registry.insertProject (r : Registry) (p : Project) : Registry :=
  (r.insertProjectRow p).insertProviderRows p.projectId p.updateTokens

def Project.response (p : Project) : NewProjectResponse :=
  ⟨p.projectId, p.updateTokens, p.resultToken⟩

inductive Posted (codes : Codes) (data : Option NewProject) (r : Registry) :
    Registry → Except Error NewProjectResponse → Prop
  | created {p : Project} (hjson : Project.fromJson codes data = .ok p) (hnew : p.Storable r) :
      Posted codes data r (r.insertProject p) (.ok p.response)
  | denied {message : String} (hjson : Project.fromJson codes data = .error message) :
      Posted codes data r r (.error (.problem 400 message))
  | failed {p : Project} (hjson : Project.fromJson codes data = .ok p) (hold : ¬ p.Storable r)
      {next : DpId} (hle : r.nextDpId ≤ next) (hdrawn : next ≤ r.nextDpId + p.numberParties) :
      Posted codes data r { r with nextDpId := next }
        (.error (.problem 500 "Problem creating new project"))

section Post
variable {codes : Codes} {data : Option NewProject} {r r' : Registry} {p : Project}

theorem insertNewProject_apply : insertNewProject p r =
    if p.projectId ∉ r.db.projects.map ProjectRow.projectId ∧ p.numberParties < 2 ^ 15 then
      (r.insertProjectRow p, .ok ())
    else (r, .error .databaseError) := by
  rw [insertNewProject, Action.get_bind]
  split_ifs with h
  · rw [ensure, if_pos h]
    rfl
  · rw [ensure, if_neg h]
    rfl

/-- The project is saved as a whole, or its ids are lost. -/
theorem save_cases (hfresh : r.Fresh) :
    p.Storable r ∧ p.save r =
        (r.insertProject p, .ok (List.range' r.nextDpId p.updateTokens.length)) ∨
      ¬ p.Storable r ∧ ∃ next, p.save r = ({ r with nextDpId := next }, .error .databaseError) ∧
        r.nextDpId ≤ next ∧ next ≤ r.nextDpId + p.numberParties := by
  have hrow := insertNewProject_apply (r := r) (p := p)
  rw [Project.save, transaction]
  by_cases h : p.projectId ∉ r.db.projects.map ProjectRow.projectId ∧ p.numberParties < 2 ^ 15
  · rw [if_pos h] at hrow
    rw [Action.bind_of_ok hrow]
    have hproject : p.projectId ∈ (r.insertProjectRow p).db.projects.map ProjectRow.projectId := by
      simp [Registry.insertProjectRow, Project.row]
    have hfresh' : (r.insertProjectRow p).Fresh := hfresh
    rcases insertDataproviders_cases p.updateTokens hfresh' hproject with
      ⟨hunused, hrest⟩ | ⟨hused, r', hrest, hle, hle'⟩
    · rw [hrest]
      exact .inl ⟨⟨h.1, h.2, hunused⟩, rfl⟩
    · rw [hrest]
      rw [p.length_updateTokens] at hle'
      exact .inr ⟨fun hnew => hused hnew.tokens, _, rfl, hle, hle'⟩
  · rw [if_neg h] at hrow
    rw [Action.bind_of_error hrow]
    refine .inr ⟨fun hnew => h ⟨hnew.projectId, hnew.smallint⟩, _, rfl, le_rfl, ?_⟩
    exact Nat.le_add_right _ _

theorem posted_of_projectsPost (hfresh : r.Fresh) :
    Posted codes data r (projectsPost codes data r).1 (projectsPost codes data r).2 := by
  rw [projectsPost]
  cases hjson : Project.fromJson codes data with
  | error message => exact .denied hjson
  | ok p =>
    rcases save_cases (p := p) hfresh with ⟨hnew, hsave⟩ | ⟨hold, next, hsave, hle, hle'⟩
    · have hhandle : (p.save.handle fun _ => Action.raise
          (.problem 500 "Problem creating new project")) r =
            (r.insertProject p, .ok (List.range' r.nextDpId p.updateTokens.length)) := by
        rw [Action.handle, hsave]
      rw [Except.mapError, Action.lift_ok_bind, Action.bind_of_ok hhandle]
      exact .created hjson hnew
    · have hhandle : (p.save.handle fun _ => Action.raise
          (.problem 500 "Problem creating new project")) r =
            ({ r with nextDpId := next },
              .error (.problem 500 "Problem creating new project")) := by
        rw [Action.handle, hsave]
        rfl
      rw [Except.mapError, Action.lift_ok_bind, Action.bind_of_error hhandle]
      exact .failed hjson hold hle hle'

end Post
end EntityService.Models
