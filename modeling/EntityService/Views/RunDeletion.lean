import EntityService.Service.Deletion
import EntityService.Tasks.ObjectNames
import EntityService.Views.Endpoints

/-! The deletion of a run and of its file of similarity scores. The name of the file is read back
from a column that pads it, and is passed on as it was read. -/
namespace EntityService
open Lib Service
open Tasks.Aggregation hiding RunId

namespace Service.Storage
variable (s : Storage) (runId : RunId)

/-- The name of the run's file of scores, as it is read. -/
def getSimilarityFileForRun : Except Error (Option FileName) :=
  match s.similarityFiles runId with
  | [] => .ok none
  | [file] => .ok (some file)
  | _ => .error .assertionError

/-- Delete the row of the run, and with it the rows of results that refer to it. -/
def deleteRunData : Storage :=
  { s with
    runs := s.runs.erase runId
    runResults := s.runResults.filter fun r => r.runId ≠ runId
    similarityScores := s.similarityScores.filter fun r => r.1 ≠ runId
    permutations := s.permutations.filter fun r => r.run ≠ runId
    permutationMasks := s.permutationMasks.filter fun r => r.run ≠ runId }

end Service.Storage

namespace Views

def deleteRun (runId : RunId) : Lib.Action Storage Error (Option FileName) := do
  Action.modify fun s => { s with
    toServer := s.setHash runId (Cache.setRunStateDeleted (s.hash runId)) }
  let s ← Action.get
  let similarityFile ← Action.lift (s.getSimilarityFileForRun runId)
  Action.modify fun s => s.deleteRunData runId
  return similarityFile

/-- `DELETE` of a run. The result is what `delete_minio_objects` is scheduled with, if it is. -/
def runDelete (projectId : ProjectId) (runId : RunId) (authorization : Option Token) :
    Lib.Action Storage Error (Option (List FileName)) := do
  let s ← Action.get
  Action.lift (authorizeRunDetail s projectId runId authorization)
  let similarityFile ← deleteRun runId
  return (similarityFile.filter fun file => file ≠ "").map fun file => [file]

section Deletion
variable {s s' : Storage} {projectId : ProjectId} {runId : RunId} {authorization : Option Token}
  {job : Option (List FileName)}

theorem deleteRun_ok {file : Option FileName} (h : deleteRun runId s = (s', .ok file)) :
    s.getSimilarityFileForRun runId = .ok file ∧ s'.objects = s.objects := by
  unfold deleteRun at h
  rw [Action.modify_bind, Action.get_bind] at h
  obtain ⟨s₁, file', hlift, h⟩ := Action.bind_eq_ok.mp h
  rw [Action.lift_apply, Prod.mk.injEq] at hlift
  obtain ⟨rfl, hfile⟩ := hlift
  rw [Action.modify_bind, Action.pure_apply, Prod.mk.injEq] at h
  obtain ⟨rfl, hsame⟩ := h
  obtain rfl := Except.ok.inj hsame
  exact ⟨hfile, rfl⟩

/-- A run that has been deleted had one file of scores at most, and its name is passed on as the
column returns it. -/
theorem runDelete_ok (h : runDelete projectId runId authorization s = (s', .ok job)) :
    s'.objects = s.objects ∧ ∀ {name : FileName}, (runId, name) ∈ s.similarityScores →
      String.ofList (charPad 70 name.toList) ≠ "" →
        job = some [String.ofList (charPad 70 name.toList)] := by
  unfold runDelete at h
  rw [Action.get_bind] at h
  obtain ⟨s₁, _, hauthorize, hrest⟩ := Action.bind_eq_ok.mp h
  obtain rfl : s = s₁ := congrArg Prod.fst hauthorize
  obtain ⟨s₂, file, hdelete, hreturn⟩ := Action.bind_eq_ok.mp hrest
  obtain ⟨hfile, hobjects⟩ := deleteRun_ok hdelete
  cases hreturn
  refine ⟨hobjects, fun {name} hname hne => ?_⟩
  have hmem : String.ofList (charPad 70 name.toList) ∈ s.similarityFiles runId :=
    List.mem_map.mpr ⟨(runId, name), List.mem_filter.mpr ⟨hname, decide_eq_true rfl⟩, rfl⟩
  unfold Storage.getSimilarityFileForRun at hfile
  split at hfile
  case h_1 hfiles => simp [hfiles] at hmem
  case h_2 other hfiles =>
    cases hfile
    obtain rfl : String.ofList (charPad 70 name.toList) = other := by simpa [hfiles] using hmem
    simp [hne]
  case h_3 => cases hfile

/-- A name of 46 characters is passed on as another name. -/
theorem runDelete_padded {name : FileName} (hlength : name.toList.length = 46)
    (hrow : (runId, name) ∈ s.similarityScores)
    (h : runDelete projectId runId authorization s = (s', .ok job)) :
    s'.objects = s.objects ∧ ∃ padded, padded ≠ name ∧ job = some [padded] := by
  obtain ⟨hobjects, hjob⟩ := runDelete_ok h
  have hnonempty : String.ofList (charPad 70 name.toList) ≠ "" := by
    intro he
    have hlist := congrArg (fun t => t.toList.length) he
    simp [charPad, hlength] at hlist
  exact ⟨hobjects, _, charPad_ne (by omega), hjob hrow hnonempty⟩

/-- The name of the file is passed on for removal, and then neither its row nor the object is
left. -/
def ScoreFileDeleted (projectId : ProjectId) (runId : RunId) (authorization : Option Token)
    (name : FileName) (s : Storage) : Prop :=
  ∃ s', runDelete projectId runId authorization s = (s', .ok (some [name])) ∧
    (runId, name) ∉ (s'.deleteMinioObjects [name]).similarityScores ∧
    name ∉ (s'.deleteMinioObjects [name]).objects.keys

/-- The name of a file that has been aggregated is 46 characters long, so the padded name of the
column is never the name of the file: the object stays. -/
theorem not_scoreFileDeleted {σ : Type} [LinearOrder σ] {fmt : CandidateFormat σ} {codes : Codes}
    {r r' : ResultStore} {results : List (Option PackageResult)} {name : FileName}
    (hdrawn : codes.Drawn r'.codes) (hresults : Generated codes r.codes (resultNames results))
    (haggregate : aggregateComparisons fmt codes (some results) runId r = (r', .ok ()))
    (hrecorded : r'.similarityScores.getLast? = some (runId, name))
    (hrow : (runId, name) ∈ s.similarityScores) :
    ¬ ScoreFileDeleted projectId runId authorization name s ∧
      ∀ s' job object, runDelete projectId runId authorization s = (s', .ok job) →
        s.objects.get? name = some object →
          (s'.deleteMinioObjects (job.getD [])).objects.get? name = some object := by
  obtain ⟨n, hn, rfl⟩ := aggregateComparisons_filename hresults haggregate hrecorded
  have hlength := hdrawn.length_filename hn
  constructor
  · rintro ⟨s', hdelete, -, -⟩
    obtain ⟨-, padded, hne, hjob⟩ := runDelete_padded hlength hrow hdelete
    simp only [Option.some.injEq, List.cons.injEq, and_true] at hjob
    exact hne hjob.symm
  · intro s' job object hdelete hobject
    obtain ⟨hobjects, padded, hne, rfl⟩ := runDelete_padded hlength hrow hdelete
    refine (Dict.get?_erase_of_ne s'.objects hne.symm).trans ?_
    rw [hobjects, hobject]

end Deletion

/-- A run without candidate pairs, of which the empty file has been aggregated. -/
def emptyStore : ResultStore := ⟨Dict.empty, [], 0⟩

def scoredRun : Storage where
  db := twoProjects
  runs := Dict.empty.set "r" ⟨"p", .completed, 2, .noMapping, false⟩
  cache := Dict.empty
  accessTokens := Dict.empty.set "p" "t"
  runResults := []
  similarityScores := [("r", longCodes.filename 0)]
  permutations := []
  permutationMasks := []
  objects := Dict.empty.set (longCodes.filename 0) ⟨"p", doubleFormat.dump []⟩

theorem aggregate_emptyStore :
    aggregateComparisons doubleFormat longCodes (some []) "r" emptyStore =
    (⟨Dict.empty.set (longCodes.filename 0) (doubleFormat.dump []),
      [("r", longCodes.filename 0)], 1⟩, .ok ()) := by
  have hfiles : resultFiles [] = .ok [] := rfl
  simp [aggregateComparisons, orRaise, hfiles, mergeHeap, putPlaceholderEmptyFile,
    generateFilename, putObject, Action.bind_apply, emptyStore]

theorem drawn_longCodes : longCodes.Drawn 1 := by
  intro n hn
  obtain rfl : n = 0 := by omega
  exact ⟨List.replicate 12 170, rfl, by decide⟩

theorem not_scoreFileDeleted_scoredRun :
    ¬ ScoreFileDeleted "p" "r" (some "t") (longCodes.filename 0) scoredRun ∧
      ∀ s' job object, runDelete "p" "r" (some "t") scoredRun = (s', .ok job) →
        scoredRun.objects.get? (longCodes.filename 0) = some object →
          (s'.deleteMinioObjects (job.getD [])).objects.get? (longCodes.filename 0) =
            some object :=
  have hresults : Generated longCodes emptyStore.codes (resultNames []) := by
    simp [Generated, resultNames]
  not_scoreFileDeleted drawn_longCodes hresults aggregate_emptyStore rfl List.mem_cons_self

/-- The run is deleted, and its file is still there after the objects have been removed. -/
theorem scoreFile_left_scoredRun :
    aggregateComparisons doubleFormat longCodes (some []) "r" emptyStore =
        (⟨Dict.empty.set (longCodes.filename 0) (doubleFormat.dump []),
          [("r", longCodes.filename 0)], 1⟩, .ok ()) ∧
      (∃ s' job, runDelete "p" "r" (some "t") scoredRun = (s', .ok job) ∧
        (s'.deleteMinioObjects (job.getD [])).objects.get? (longCodes.filename 0) =
          some ⟨"p", doubleFormat.dump []⟩) ∧
      ¬ ScoreFileDeleted "p" "r" (some "t") (longCodes.filename 0) scoredRun := by
  have hlength := drawn_longCodes.length_filename Nat.zero_lt_one
  have hrow : ("r", longCodes.filename 0) ∈ scoredRun.similarityScores := List.mem_cons_self
  obtain ⟨s', job, hdelete⟩ : ∃ s' job, runDelete "p" "r" (some "t") scoredRun = (s', .ok job) :=
    ⟨_, _, rfl⟩
  obtain ⟨hobjects, padded, hne, rfl⟩ := runDelete_padded hlength hrow hdelete
  refine ⟨aggregate_emptyStore, ⟨s', _, hdelete, ?_⟩, ?_⟩
  · refine (Dict.get?_erase_of_ne s'.objects hne.symm).trans ?_
    rw [hobjects]
    exact Dict.get?_set_self _ _ _
  · rintro ⟨s'', hdelete', -, -⟩
    obtain ⟨-, padded', hne', hjob⟩ := runDelete_padded hlength hrow hdelete'
    simp only [Option.some.injEq, List.cons.injEq, and_true] at hjob
    exact hne' hjob.symm

end Views
end EntityService
