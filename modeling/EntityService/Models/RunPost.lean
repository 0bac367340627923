import EntityService.Models.StableResults

/-! A request to post a run, from its checks to the row that the tasks of the run work on. -/
namespace EntityService.Models
open Lib Service Views

/-- A number of a document. A finite one has the value of a double, and `NaN` and `Infinity` are
read as numbers too. -/
inductive JsonNumber
  | finite (value : ℚ)
  | infinite (negative : Bool)
  | nan
deriving DecidableEq, Repr

namespace JsonNumber

def le : JsonNumber → ℚ → Bool
  | .finite value, bound => value ≤ bound
  | .infinite negative, _ => negative
  | .nan, _ => false

def gt : JsonNumber → ℚ → Bool
  | .finite value, bound => bound < value
  | .infinite negative, _ => !negative
  | .nan, _ => false

/-- Positive and at most one, or no number at all. -/
def Accepted : JsonNumber → Prop
  | .finite value => 0 < value ∧ value ≤ 1
  | .infinite _ => False
  | .nan => True

theorem accepted_iff (threshold : JsonNumber) :
    ¬ (threshold.le 0 ∨ threshold.gt 1) ↔ threshold.Accepted := by
  cases threshold with
  | finite value => simp [le, gt, Accepted]
  | infinite negative => cases negative <;> simp [le, gt, Accepted]
  | nan => simp [le, gt, Accepted]

end JsonNumber

/-- A run before it is inserted into the database. -/
structure Run where
  projectId : ProjectId
  runId : RunId
  threshold : JsonNumber
  type : RunType
deriving DecidableEq, Repr

/-- No handler catches the `InvalidRunParametersException`, which is a `ValueError`. -/
def Run.fromJson (s : Storage) (code : RunId) (threshold : JsonNumber) (projectId : ProjectId) :
    Except Error Run := do
  ensure (¬ (threshold.le 0 ∨ threshold.gt 1)) .valueError
  let resultType ← s.getResultType projectId
  return ⟨projectId, code, threshold,
    if resultType = .similarityScores then .noMapping else .default⟩

/-- The column of the threshold is left out. -/
def Run.save (run : Run) (s : Storage) : Except Error Storage := do
  let server ← orRaise (s.insertNewRun run.runId run.projectId run.type) .databaseError
  return { s with toServer := server }

def abortIfProjectInErrorState (db : Database) (projectId : ProjectId) : Except Error Unit :=
  ensure (db.getErroredUploadsCount projectId = 0)
    (.problem 500 "Can't post run as project has errors")

/-- The view that posts a run, up to the task that it schedules. Its checks and its insertion see
one state here. -/
def runsPost (s : Storage) (projectId : ProjectId) (authorization : Option Token) (code : RunId)
    (threshold : JsonNumber) : Except Error (Storage × Run) := do
  abortIfProjectDoesntExist s.db projectId
  abortIfInvalidResultsToken s projectId authorization
  abortIfProjectInErrorState s.db projectId
  let run ← Run.fromJson s code threshold projectId
  let s ← run.save s
  return (s, run)

theorem insertNewRun_eq_some {s s' : Server} {runId : RunId} {projectId : ProjectId}
    {type : RunType} : s.insertNewRun runId projectId type = some s' ↔
      runId ∉ s.runs.keys ∧
        s' = { s with runs := s.runs.set runId ⟨projectId, .created, 1, type, false⟩ } := by
  unfold Server.insertNewRun
  split_ifs with h
  · simp [h]
  · simp [h, eq_comm]

section Post
variable {s s' : Storage} {projectId : ProjectId} {authorization : Option Token} {code : RunId}
  {threshold : JsonNumber} {run : Run}

/-- The checks, and what a request that passes them inserts. -/
theorem runsPost_eq_ok {resultType : ResultType}
    (htype : s.getResultType projectId = .ok resultType) :
    runsPost s projectId authorization code threshold = .ok (s', run) ↔
      (s.db.checkProjectExists projectId ∧ s.checkProjectAuth projectId authorization ∧
        s.db.getErroredUploadsCount projectId = 0 ∧ threshold.Accepted ∧ ¬ s.RunExists code) ∧
      run = ⟨projectId, code, threshold,
        if resultType = .similarityScores then .noMapping else .default⟩ ∧
      s' = { s with runs := s.runs.set code ⟨projectId, .created, 1, run.type, false⟩ } := by
  constructor
  · intro h
    obtain ⟨_, hexists, h⟩ := bind_eq_ok.mp h
    obtain ⟨_, hauth, h⟩ := bind_eq_ok.mp h
    obtain ⟨_, herrors, h⟩ := bind_eq_ok.mp h
    obtain ⟨_, hjson, h⟩ := bind_eq_ok.mp h
    obtain ⟨_, hsave, h⟩ := bind_eq_ok.mp h
    cases h
    obtain ⟨_, hthreshold, hjson⟩ := bind_eq_ok.mp hjson
    obtain ⟨_, hfound, hjson⟩ := bind_eq_ok.mp hjson
    obtain rfl := Except.ok.inj (htype.symm.trans hfound)
    cases hjson
    obtain ⟨_, hinsert, hsave⟩ := bind_eq_ok.mp hsave
    cases hsave
    obtain ⟨hnew, rfl⟩ := insertNewRun_eq_some.mp (orRaise_eq_ok.mp hinsert)
    exact ⟨⟨ensure_eq_ok.mp hexists, ensure_eq_ok.mp hauth, ensure_eq_ok.mp herrors,
      threshold.accepted_iff.mp (ensure_eq_ok.mp hthreshold), hnew⟩, rfl, rfl⟩
  · rintro ⟨⟨hexists, hauth, herrors, hthreshold, hnew⟩, rfl, rfl⟩
    have hexists' : abortIfProjectDoesntExist s.db projectId = .ok () := ensure_eq_ok.mpr hexists
    have hauth' : abortIfInvalidResultsToken s projectId authorization = .ok () :=
      ensure_eq_ok.mpr hauth
    have herrors' : abortIfProjectInErrorState s.db projectId = .ok () :=
      ensure_eq_ok.mpr herrors
    have hthreshold' : ensure (¬ (threshold.le 0 ∨ threshold.gt 1)) Error.valueError = .ok () :=
      ensure_eq_ok.mpr (threshold.accepted_iff.mpr hthreshold)
    have hinsert : ∀ type, s.insertNewRun code projectId type =
        some { s.toServer with runs := s.runs.set code ⟨projectId, .created, 1, type, false⟩ } :=
      fun _ => insertNewRun_eq_some.mpr ⟨hnew, rfl⟩
    rw [runsPost, hexists', ok_bind, hauth', ok_bind, herrors', ok_bind, Run.fromJson, hthreshold',
      ok_bind, htype]
    simp only [ok_bind, pure_eq_ok, Run.save, hinsert, orRaise, Option.elim_some]

theorem runStatusGet_of_row (row : RunRow) {resultType : ResultType}
    (hrow : s.runs.get? code = some row) (hproject : row.project = projectId)
    (htype : s.getResultType projectId = .ok resultType)
    (hauth : s.checkProjectAuth projectId authorization = true)
    (herrors : s.db.getErroredUploadsCount projectId = 0) :
    runStatusGet s projectId code authorization = .ok ⟨row.state, row.type.stages, row.stage⟩ := by
  have hexists : abortIfRunDoesntExist s projectId code = .ok () :=
    ensure_eq_ok.mpr (checkRunExists_iff.mpr ⟨row, hrow, hproject⟩)
  have htoken := tokenType_of_checkProjectAuth htype hauth
  rw [runStatusGet, hexists, ok_bind, htoken, ok_bind, hrow, orRaise, Option.elim_some, ok_bind,
    herrors]
  rfl

/-- The transaction of the view is the first one of the request in the service. -/
theorem deployed_of_runsPost (settings : Settings)
    (h : runsPost s projectId authorization code threshold = .ok (s', run)) :
    deployed settings s (.system (.service (.post ⟨projectId, code, .pending⟩)))
        (.system ⟨.proceed, Tasks.ProjectCleanup.nothingWritten⟩) =
      some (s', .system (.service (.post ⟨projectId, code, .committed ()⟩)), []) := by
  obtain ⟨_, -, hjson⟩ := bind_eq_ok.mp h
  obtain ⟨_, -, hjson⟩ := bind_eq_ok.mp hjson
  obtain ⟨_, -, hjson⟩ := bind_eq_ok.mp hjson
  obtain ⟨_, hjson, -⟩ := bind_eq_ok.mp hjson
  obtain ⟨_, -, hjson⟩ := bind_eq_ok.mp hjson
  obtain ⟨resultType, htype, -⟩ := bind_eq_ok.mp hjson
  obtain ⟨⟨-, -, -, -, hnew⟩, rfl, rfl⟩ := (runsPost_eq_ok htype).mp h
  obtain ⟨project, hproject, hsame⟩ := bind_eq_ok.mp htype
  cases hsame
  have hproject := orRaise_eq_ok.mp hproject
  have hinsert : ∀ type, s.insertNewRun code projectId type =
      some { s.toServer with runs := s.runs.set code ⟨projectId, .created, 1, type, false⟩ } :=
    fun _ => insertNewRun_eq_some.mpr ⟨hnew, rfl⟩
  simp [deployed, Tasks.ProjectCleanup.system, Tasks.ProjectCleanup.serviceStep, service,
    Service.Post.step, Service.Post.proceed, hproject, hinsert, insertsFor,
    Tasks.ProjectCleanup.store, Tasks.ProjectCleanup.uploadRows, committed,
    Except.toOption]

end Post

/-- Who can post a run to a project, and what becomes of it. -/
structure PostsRun (settings : Settings) (d : Deployment) (c : Created) (code : RunId)
    (threshold : JsonNumber) : Prop where
  accepted : ∀ authorization,
    (runsPost d.pool.shared c.response.projectId authorization code threshold).isOk ↔
      d.pool.shared.db.ProjectExists c.response.projectId ∧
        authorization = some c.response.resultToken ∧
        d.pool.shared.db.getErroredUploadsCount c.response.projectId = 0 ∧
        threshold.Accepted ∧ ¬ d.pool.shared.RunExists code
  refines : ∀ {authorization s run},
    runsPost d.pool.shared c.response.projectId authorization code threshold = .ok (s, run) →
      ∃ d', Deployment.Reaches settings d d' ∧ d'.pool.shared = s
  described : ∀ {authorization s run},
    runsPost d.pool.shared c.response.projectId authorization code threshold = .ok (s, run) →
      runStatusGet s c.response.projectId code authorization =
        .ok ⟨.created, run.type.stages, 1⟩
  others : ∀ {authorization s run},
    runsPost d.pool.shared c.response.projectId authorization code threshold = .ok (s, run) →
      ∀ r ≠ code, s.runs.get? r = d.pool.shared.runs.get? r

section Deployment
variable {settings : Settings} {d : Deployment} {c : Created}

/-- In every state, with any threshold and any id that the service draws. -/
theorem postsRun_of_reaches (h : Deployment.Reaches settings .new d) (hc : c ∈ d.created)
    (code : RunId) (threshold : JsonNumber) : PostsRun settings d c code threshold := by
  have hrecorded := (sound_of_reaches h).recorded
  obtain ⟨resultType, -, htype⟩ := hrecorded.getResultType hc
  constructor
  · intro authorization
    have hproject :=
      Database.checkProjectExists_iff hrecorded.uniqueColumns c.response.projectId
    have htoken := hrecorded.checkProjectAuth_iff hc authorization
    constructor
    · intro hok
      cases hpost : runsPost d.pool.shared c.response.projectId authorization code threshold with
      | error e =>
        rw [hpost] at hok
        cases hok
      | ok posted =>
        obtain ⟨s, run⟩ := posted
        obtain ⟨⟨hexists, hauth, hrest⟩, -⟩ := (runsPost_eq_ok htype).mp hpost
        exact ⟨hproject.mp hexists, htoken.mp hauth, hrest⟩
    · rintro ⟨hexists, hauth, hrest⟩
      have hchecks := And.intro (hproject.mpr hexists) (And.intro (htoken.mpr hauth) hrest)
      have hpost := (runsPost_eq_ok htype).mpr ⟨hchecks, rfl, rfl⟩
      rw [show runsPost d.pool.shared c.response.projectId authorization code threshold = _
        from hpost]
      rfl
  · intro authorization s run hpost
    have hstep := deployed_of_runsPost settings hpost
    have hrun : (⟨d.pool.shared, d.pool.processes ++
        [.system (.service (.post ⟨c.response.projectId, code, .pending⟩))]⟩ :
          Pool Storage DeployedProcess).step (deployed settings) d.pool.processes.length
            (.system ⟨.proceed, Tasks.ProjectCleanup.nothingWritten⟩) = some _ :=
      Pool.step_eq_some.mpr ⟨d.pool.processes, _, [], s, _, [], rfl, rfl, hstep, rfl⟩
    exact ⟨_, (Relation.ReflTransGen.single (.arrive rfl)).tail (.run hrun), rfl⟩
  · intro authorization s run hpost
    obtain ⟨⟨-, hauth, herrors, -, -⟩, -, rfl⟩ := (runsPost_eq_ok htype).mp hpost
    apply runStatusGet_of_row ⟨c.response.projectId, .created, 1, run.type, false⟩ _ rfl
    · exact htype
    · exact hauth
    · exact herrors
    · exact Dict.get?_set_self _ _ _
  · intro authorization s run hpost r hother
    obtain ⟨-, -, rfl⟩ := (runsPost_eq_ok htype).mp hpost
    exact Dict.get?_set_of_ne _ _ hother

/-- A run with a threshold of a half, in the project that has just been created. -/
theorem postsRun_permutationsDocument :
    (runsPost (Deployment.new.create (lettered 'p') permutationsDocument).pool.shared "p"
      (some "pr") "r" (.finite (1 / 2))).isOk ∧
    PostsRun Tasks.defaultSettings (Deployment.new.create (lettered 'p') permutationsDocument)
      ⟨permutationsDocument, ⟨"p", ["p", "pu"], "pr"⟩⟩ "r" (.finite (1 / 2)) := by
  have h : Deployment.Reaches Tasks.defaultSettings .new .new := .refl
  have h := reaches_create h (lettered 'p') permutationsDocument
  exact ⟨by decide +kernel, postsRun_of_reaches h (by decide) "r" (.finite (1 / 2))⟩

end Deployment
end EntityService.Models
