import EntityService.Views.RunDeletion

/-! The deletion of a project, and what it leaves in the bucket. Every name that the service writes
is shorter than the column from which it is read back. -/
namespace EntityService.Views
open Lib Service
open Tasks.Aggregation hiding RunId

def projectDelete (projectId : ProjectId) (authorization : Option Token) :
    Lib.Action Storage Error Unit := do
  let s ← Action.get
  Action.lift (abortIfProjectDoesntExist s.db projectId)
  Action.lift (abortIfInvalidResultsToken s projectId authorization)
  Action.modify fun s => s.markProjectDeleted projectId

def removeProject (projectId : ProjectId) : Lib.Action Storage Error (List FileName) := do
  Action.modify fun s => s.setRunStatesDeleted projectId
  Action.modify fun s => s.deleteProjectData projectId
  let s ← Action.get
  Action.lift (s.getAllObjectsForProject projectId)

/-- The bucket holds nothing that was written for the project. -/
def NoObjects (projectId : ProjectId) (s : Storage) : Prop :=
  ∀ name object, s.objects.get? name = some object → object.project ≠ projectId

/-- Once the deletion is accepted the project is removed, and nothing that was written for it is
left in the bucket. -/
def ObjectsDeleted (projectId : ProjectId) (authorization : Option Token) (s : Storage) : Prop :=
  ∀ s', projectDelete projectId authorization s = (s', .ok ()) →
    ∃ s'' files, removeProject projectId s' = (s'', .ok files) ∧
      NoObjects projectId (s''.deleteMinioObjects files)

section Deletion
variable {s s' : Storage} {projectId : ProjectId} {authorization : Option Token}

theorem projectDelete_ok (h : projectDelete projectId authorization s = (s', .ok ())) :
    s.db.checkProjectExists projectId ∧ s' = s.markProjectDeleted projectId := by
  unfold projectDelete at h
  rw [Action.get_bind] at h
  obtain ⟨s₁, _, hexists, h⟩ := Action.bind_eq_ok.mp h
  rw [Action.lift_apply, Prod.mk.injEq] at hexists
  obtain ⟨rfl, hexists⟩ := hexists
  obtain ⟨s₂, _, hauth, h⟩ := Action.bind_eq_ok.mp h
  rw [Action.lift_apply, Prod.mk.injEq] at hauth
  obtain ⟨rfl, -⟩ := hauth
  cases h
  exact ⟨ensure_eq_ok.mp hexists, rfl⟩

theorem setRunStatesDeleted_db (s : Storage) (projectId : ProjectId) :
    (s.setRunStatesDeleted projectId).db = s.db := by
  have hfold : ∀ (runIds : List RunId) (server : Server),
      (runIds.foldl (fun s runId => s.setHash runId (Cache.setRunStateDeleted (s.hash runId)))
        server).db = server.db := by
    intro runIds
    induction runIds with
    | nil => exact fun _ => rfl
    | cons runId runIds ih => exact fun server => ih _
  exact hfold _ s.toServer

/-- The row of a project stays when its data is deleted. -/
theorem getResultType_deleteProjectData (h : s.db.checkProjectExists projectId) :
    ∃ resultType,
      (((s.markProjectDeleted projectId).setRunStatesDeleted projectId).deleteProjectData
      projectId).getResultType projectId = .ok resultType := by
  have hpos : 0 < s.db.projects.countP
      (fun r => r.projectId = projectId ∧ r.markedForDeletion = false) := by
    have hone := of_decide_eq_true h
    omega
  obtain ⟨r, hr, hproject⟩ := List.countP_pos_iff.mp hpos
  have hid : r.projectId = projectId := (of_decide_eq_true hproject).1
  have hfound : ((s.db.markProjectDeleted projectId).findProject projectId).isSome := by
    refine List.find?_isSome.mpr ⟨_, List.mem_map.mpr ⟨r, hr, rfl⟩, ?_⟩
    simp [hid]
  obtain ⟨row, hrow⟩ := Option.isSome_iff_exists.mp hfound
  have hsame : (((s.markProjectDeleted projectId).setRunStatesDeleted projectId).deleteProjectData
      projectId).db.findProject projectId = some row := by
    rw [← hrow]
    unfold Storage.deleteProjectData Storage.commitDeleted
    simp only [setRunStatesDeleted_db]
    rfl
  refine ⟨row.resultType, ?_⟩
  unfold Storage.getResultType
  rw [hsame]
  rfl

/-- Every name that is passed on is as long as the shortest column it may come from. -/
theorem getAllObjectsForProject_length {files : List FileName}
    (h : s.getAllObjectsForProject projectId = .ok files) :
    ∀ file ∈ files, 64 ≤ file.toList.length := by
  obtain ⟨resultType, -, h⟩ := bind_eq_ok.mp h
  cases h
  have huploads : ∀ file ∈ (s.db.dataproviders.filter fun r => r.project = projectId).filterMap
      (fun r => s.uploadFile r.id), 64 ≤ file.toList.length := by
    intro file hfile
    obtain ⟨r, -, hr⟩ := List.mem_filterMap.mp hfile
    obtain ⟨row, -, hrow⟩ := Option.bind_eq_some_iff.mp hr
    obtain ⟨name, -, hname⟩ := Option.bind_eq_some_iff.mp hrow
    obtain rfl := Option.some.inj hname
    rw [String.toList_ofList]
    exact le_length_charPad 64 name.toList
  intro file hfile
  split_ifs at hfile with hscores
  · rcases List.mem_append.mp hfile with hfile | hfile
    · exact huploads file hfile
    · obtain ⟨r, -, rfl⟩ := List.mem_map.mp hfile
      rw [String.toList_ofList]
      exact le_trans (by omega) (le_length_charPad 70 r.2.toList)
  · exact huploads file hfile

theorem removeProject_ok {files : List FileName}
    (h : removeProject projectId s = (s', .ok files)) :
    s'.objects = s.objects ∧ ∀ file ∈ files, 64 ≤ file.toList.length := by
  unfold removeProject at h
  rw [Action.modify_bind, Action.modify_bind, Action.get_bind, Action.lift_apply,
    Prod.mk.injEq] at h
  obtain ⟨rfl, hfiles⟩ := h
  exact ⟨rfl, getAllObjectsForProject_length hfiles⟩

theorem removeProject_of_marked (h : projectDelete projectId authorization s = (s', .ok ())) :
    ∃ s'' files, removeProject projectId s' = (s'', .ok files) := by
  obtain ⟨hexists, rfl⟩ := projectDelete_ok h
  obtain ⟨resultType, htype⟩ := getResultType_deleteProjectData hexists
  unfold removeProject Storage.getAllObjectsForProject
  rw [Action.modify_bind, Action.modify_bind, Action.get_bind, htype, ok_bind]
  exact ⟨_, _, rfl⟩

/-- No object with a name that the service writes is removed from the bucket. -/
theorem object_left {name : FileName} {object : StoredObject} {files : List FileName}
    {s'' : Storage} (hname : ObjectName name) (hobject : s.objects.get? name = some object)
    (hdelete : projectDelete projectId authorization s = (s', .ok ()))
    (hremove : removeProject projectId s' = (s'', .ok files)) :
    (s''.deleteMinioObjects files).objects.get? name = some object := by
  obtain ⟨-, rfl⟩ := projectDelete_ok hdelete
  obtain ⟨hobjects, hfiles⟩ := removeProject_ok hremove
  have hnot : name ∉ files := by
    intro hmem
    have hlong := hfiles name hmem
    have hshort := hname.length_lt
    omega
  unfold Storage.deleteMinioObjects
  rw [Dict.get?_foldl_erase_of_not_mem hnot, hobjects]
  exact hobject

/-- The clean-up removes no object of the project, so nothing is left only if there was nothing. -/
theorem objectsDeleted_iff
    (hnames : ∀ name object, s.objects.get? name = some object → object.project = projectId →
      ObjectName name)
    (haccepted : ∃ s', projectDelete projectId authorization s = (s', .ok ())) :
    ObjectsDeleted projectId authorization s ↔ NoObjects projectId s := by
  obtain ⟨s', hdelete⟩ := haccepted
  constructor
  · intro h name object hobject hproject
    obtain ⟨s'', files, hremove, hnone⟩ := h s' hdelete
    exact hnone name object
      (object_left (hnames name object hobject hproject) hobject hdelete hremove) hproject
  · intro h s₁ hdelete₁
    obtain ⟨-, rfl⟩ := projectDelete_ok hdelete₁
    obtain ⟨s'', files, hremove⟩ := removeProject_of_marked hdelete₁
    obtain ⟨hobjects, -⟩ := removeProject_ok hremove
    refine ⟨s'', files, hremove, fun name object hobject => h name object ?_⟩
    have hbefore := Dict.get?_of_get?_foldl_erase hobject
    rwa [hobjects] at hbefore

end Deletion

def uploadName : FileName := RAW_FILENAME_FMT (hexlify (List.replicate 24 170))

def scoresName : FileName := SIMILARITY_SCORES_FILENAME_FMT (hexlify (List.replicate 12 170))

/-- A project whose uploads have been read, with the scores of a completed run. -/
def scoredProject : Storage where
  db := { twoProjects with
    projects := [⟨"p", none, none, 2, .similarityScores, false, false⟩]
    dataproviders := [⟨1, "a", .done, "p"⟩, ⟨2, "b", .done, "p"⟩]
    uploads := [⟨1, hexlify (List.replicate 24 170), none, .ready, some 8, 1, 1⟩,
      ⟨2, "y", none, .ready, some 8, 2, 1⟩] }
  runs := Dict.empty.set "r" ⟨"p", .completed, 2, .noMapping, false⟩
  cache := Dict.empty
  accessTokens := Dict.empty.set "p" "t"
  runResults := []
  similarityScores := [("r", scoresName)]
  permutations := []
  permutationMasks := []
  objects := (Dict.empty.set uploadName ⟨"p", [123, 125]⟩).set scoresName ⟨"p", []⟩

theorem objectName_scoredProject {name : FileName} {object : StoredObject}
    (h : scoredProject.objects.get? name = some object) : ObjectName name := by
  by_cases hscores : name = scoresName
  · exact hscores ▸ .scores rfl
  by_cases hupload : name = uploadName
  · exact hupload ▸ .raw rfl
  unfold scoredProject at h
  rw [Dict.get?_set_of_ne _ _ hscores, Dict.get?_set_of_ne _ _ hupload, Dict.get?_empty] at h
  cases h

theorem projectDelete_scoredProject : projectDelete "p" (some "t") scoredProject =
    (scoredProject.markProjectDeleted "p", .ok ()) := rfl

theorem objectsDeleted_iff_scoredProject :
    ObjectsDeleted "p" (some "t") scoredProject ↔ NoObjects "p" scoredProject :=
  objectsDeleted_iff (fun _ _ h _ => objectName_scoredProject h) ⟨_, projectDelete_scoredProject⟩

/-- The raw upload and the scores are still there after the clean-up. -/
theorem not_objectsDeleted_scoredProject :
    (∃ s s' files, projectDelete "p" (some "t") scoredProject = (s, .ok ()) ∧
      removeProject "p" s = (s', .ok files) ∧
      (s'.deleteMinioObjects files).objects.get? uploadName = some ⟨"p", [123, 125]⟩ ∧
      (s'.deleteMinioObjects files).objects.get? scoresName = some ⟨"p", []⟩) ∧
      ¬ ObjectsDeleted "p" (some "t") scoredProject := by
  have hupload : scoredProject.objects.get? uploadName = some ⟨"p", [123, 125]⟩ := by decide
  have hscores : scoredProject.objects.get? scoresName = some ⟨"p", []⟩ :=
    Dict.get?_set_self _ _ _
  obtain ⟨s', files, hremove⟩ := removeProject_of_marked projectDelete_scoredProject
  have hleft := object_left (objectName_scoredProject hupload) hupload projectDelete_scoredProject
    hremove
  refine ⟨⟨_, s', files, projectDelete_scoredProject, hremove, hleft,
    object_left (objectName_scoredProject hscores) hscores projectDelete_scoredProject hremove⟩, ?_⟩
  intro h
  obtain ⟨s'', files', hremove', hnone⟩ := h _ projectDelete_scoredProject
  exact hnone uploadName _ (object_left (objectName_scoredProject hupload) hupload
    projectDelete_scoredProject hremove') rfl

end EntityService.Views
