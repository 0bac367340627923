import EntityService.Service.Storage
import EntityService.Lib.Action
import EntityService.Views.AuthChecks

/-! The creation of a project together with its data providers. -/
namespace EntityService.Models
open Lib Service

/-- The document that describes a new project. Of the schema only `clkConfig.l` is read later. -/
structure NewProject where
  schema : Option (Option ℤ)
  resultType : Option String
  numberParties : Option ℤ
  usesBlocking : Option Bool
deriving DecidableEq, Repr

/-- The codes that `generate_code` draws for a project, the update tokens in their order. -/
structure Codes where
  projectId : ProjectId
  resultToken : Token
  updateToken : ℕ → Token

def INVALID_RESULT_TYPE_MESSAGE : String :=
  "result_type must be either \"groups\", \"permutations\", or \"similarity_scores\""

/-- `VALID_RESULT_TYPES`, each with the value of the type `mappingresult` that it stands for. -/
def validResultTypes : List (String × ResultType) :=
  [("groups", .groups), ("permutations", .permutations), ("similarity_scores", .similarityScores)]

/-- A project before it is inserted into the database. -/
structure Project where
  resultType : ResultType
  schema : Option ℤ
  numberParties : ℕ
  usesBlocking : Bool
  projectId : ProjectId
  resultToken : Token
  updateTokens : List Token
  length_updateTokens : updateTokens.length = numberParties
  two_le : 2 ≤ numberParties
  multiParty : 2 < numberParties → resultType = .groups
deriving DecidableEq, Repr

/-- The error is the message of the exception. -/
def Project.fromJson (codes : Codes) (data : Option NewProject) : Except String Project := do
  let data ← orRaise data "Schema information required"
  let schema ← orRaise data.schema "Schema information required"
  let resultType ← orRaise (data.resultType.bind (validResultTypes.lookup ·))
    INVALID_RESULT_TYPE_MESSAGE
  let parties := data.numberParties.getD 2
  let usesBlocking := data.usesBlocking.getD false
  if hmulti : parties > 2 ∧ resultType ≠ .groups then
    .error "Multi-party linkage requires result type 'groups'."
  else if htwo : parties < 2 then
    .error "Record linkage requires at least 2 parties!"
  else
    return {
      resultType := resultType
      schema := schema
      numberParties := parties.toNat
      usesBlocking := usesBlocking
      projectId := codes.projectId
      resultToken := codes.resultToken
      updateTokens := (List.range parties.toNat).map codes.updateToken
      length_updateTokens := by rw [List.length_map, List.length_range]
      two_le := by omega
      multiParty := by
        intro h
        by_contra hne
        exact hmulti ⟨by omega, hne⟩ }

def Project.row (p : Project) : ProjectRow :=
  ⟨p.projectId, p.schema, none, p.numberParties, p.resultType, false, p.usesBlocking⟩

/-- The tables with the sequence behind `dataproviders.id`, which no rollback sets back. -/
structure Registry extends Storage where
  nextDpId : DpId

namespace Registry
variable (r : Registry)

def insertProjectRow (p : Project) : Registry :=
  { r with
    db := { r.db with projects := r.db.projects ++ [p.row] }
    accessTokens := r.accessTokens.set p.projectId p.resultToken }

/-- The next provider takes the next id. -/
def insertProviderRow (authToken : Token) (projectId : ProjectId) : Registry :=
  { r with
    db := { r.db with
      dataproviders := r.db.dataproviders ++ [⟨r.nextDpId, authToken, .notStarted, projectId⟩] }
    nextDpId := r.nextDpId + 1 }

end Registry

/-- The column `project_id` is unique and `parties` is a `smallint`. -/
def insertNewProject (p : Project) : Action Registry Error Unit := do
  let r ← Action.get
  Action.lift (ensure (p.projectId ∉ r.db.projects.map ProjectRow.projectId ∧
    p.numberParties < 2 ^ 15) .databaseError)
  Action.modify fun r => r.insertProjectRow p

/-- The id is drawn before the keys of the row are checked. -/
def insertDataprovider (authToken : Token) (projectId : ProjectId) :
    Action Registry Error DpId := do
  let r ← Action.get
  Action.modify fun r => { r with nextDpId := r.nextDpId + 1 }
  Action.lift (ensure (r.nextDpId ∉ r.db.dataproviders.map DataproviderRow.id ∧
    authToken ∉ r.db.dataproviders.map DataproviderRow.token ∧
    projectId ∈ r.db.projects.map ProjectRow.projectId) .databaseError)
  Action.modify fun _ => r.insertProviderRow authToken projectId
  return r.nextDpId

def insertDataproviders (projectId : ProjectId) : List Token → Action Registry Error (List DpId)
  | [] => pure []
  | authToken :: updateTokens => do
    let dpId ← insertDataprovider authToken projectId
    let dpIds ← insertDataproviders projectId updateTokens
    return dpId :: dpIds

/-- An exception rolls the tables back. -/
def transaction {α : Type} (x : Action Registry Error α) : Action Registry Error α := fun r =>
  match x r with
  | (r', .ok a) => (r', .ok a)
  | (r', .error e) => ({ r with nextDpId := r'.nextDpId }, .error e)

def Project.save (p : Project) : Action Registry Error (List DpId) := transaction do
  insertNewProject p
  insertDataproviders p.projectId p.updateTokens

structure NewProjectResponse where
  projectId : ProjectId
  updateTokens : List Token
  resultToken : Token
deriving DecidableEq, Repr

/-- Every exception of the insertion is answered in the same way. -/
def projectsPost (codes : Codes) (data : Option NewProject) :
    Action Registry Error NewProjectResponse := do
  let project ← Action.lift ((Project.fromJson codes data).mapError (Error.problem 400 ·))
  let _ ← project.save.handle fun _ => Action.raise (.problem 500 "Problem creating new project")
  return ⟨project.projectId, project.updateTokens, project.resultToken⟩

end EntityService.Models
