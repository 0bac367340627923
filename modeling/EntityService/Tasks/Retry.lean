import EntityService.Tasks.Deduplication

/-! The aggregation of a run when a call of the object store raises, and its automatic retry
with the same arguments. -/
namespace EntityService.Tasks.Aggregation
open Lib

/-- The call of a merge that raises, with what it has done by then. -/
inductive MergeCall
  | getFile0
  | getFile1
  | putMerged (stored : Bool)
  | removeMerged (removed : ℕ)
deriving DecidableEq, Repr

def MergeCall.removed : MergeCall → ℕ
  | .removeMerged removed => removed
  | _ => 0

/-- The call of an aggregation that raises: one before the loop, or one of the merge that
follows a number of complete merges. -/
inductive Interruption
  | connect
  | merge (merges : ℕ) (call : MergeCall)
deriving DecidableEq, Repr

/-- The call is made when there is a number of files to merge. -/
def Interruption.Within (files : ℕ) : Interruption → Prop
  | .connect => True
  | .merge merges _ => merges + 1 < files

/-- No file of the results has been removed by then. -/
def Interruption.BeforeRemoval : Interruption → Prop
  | .connect => True
  | .merge merges call => merges = 0 ∧ call.removed = 0

section Merging
variable {σ : Type} [LinearOrder σ] (fmt : CandidateFormat σ) (codes : Codes)

def interruptedMerge (call : MergeCall) (file0 file1 : ResultFile) : Aggregate ResultFile := do
  if call = .getFile0 then Action.raise .s3Error
  let stream0 ← getObject file0.filename
  if call = .getFile1 then Action.raise .s3Error
  let stream1 ← getObject file1.filename
  let (merged, _) ← Action.lift
    (fmt.mergeStreamsIter [stream0, stream1] [file0.filesize, file1.filesize])
  let name ← generateFilename codes
  let unique ← Action.lift (uniqueValuesIter merged)
  if call = .putMerged false then Action.raise .s3Error
  putObject name unique.flatten
  removeObjects ([file0.filename, file1.filename].take call.removed)
  Action.raise .s3Error

/-- The loop in which a call raises after a number of merges, if it comes that far. -/
def interruptedHeap (call : MergeCall) : ℕ → List ResultFile → Aggregate (List ResultFile)
  | 0, file0 :: file1 :: files => do
    let merged ← interruptedMerge fmt codes call file0 file1
    mergeHeap fmt codes (files.orderedInsert ResultFile.le merged)
  | merges + 1, file0 :: file1 :: files => do
    let merged ← mergeFiles fmt codes file0 file1
    interruptedHeap call merges (files.orderedInsert ResultFile.le merged)
  | _, files => return files

/-- The aggregation in which a call of the object store raises. -/
def interruptedAggregation (interruption : Interruption)
    (similarityResultFiles : Option (List (Option PackageResult))) (runId : RunId) :
    Aggregate Unit := do
  let results ← Action.lift (orRaise similarityResultFiles .typeError)
  let files ← Action.lift (resultFiles results)
  let files := files.insertionSort ResultFile.le
  match interruption with
  | .connect => Action.raise .s3Error
  | .merge merges call =>
    let files ← interruptedHeap fmt codes call merges files
    let file ← match files with
      | [] => putPlaceholderEmptyFile fmt codes
      | file :: _ => pure file
    Action.modify fun s =>
      { s with similarityScores := s.similarityScores ++ [(runId, file.filename)] }

/-- The aggregation ends and records a file with the given content. -/
def Records (results : List (Option PackageResult)) (runId : RunId) (s : ResultStore)
    (content : Bytes) : Prop :=
  ∃ s' name, aggregateComparisons fmt codes (some results) runId s = (s', .ok ()) ∧
    s'.similarityScores = s.similarityScores ++ [(runId, name)] ∧
    s'.objects.get? name = some content

/-- Repeated after the interruption, the aggregation records what it would have recorded. -/
def RetrySafe (results : List (Option PackageResult)) (runId : RunId) (s : ResultStore)
    (interruption : Interruption) : Prop :=
  ∀ s', interruptedAggregation fmt codes interruption (some results) runId s =
      (s', .error .s3Error) →
    ∃ content, Records fmt codes results runId s content ∧
      Records fmt codes results runId s' content

variable {fmt codes}

/-- A loop that ends before the interruption is the loop without it. -/
theorem interruptedHeap_of_le (call : MergeCall) {merges : ℕ} {files : List ResultFile}
    (h : files.length ≤ merges + 1) :
    interruptedHeap fmt codes call merges files = mergeHeap fmt codes files := by
  induction merges generalizing files with
  | zero =>
    rcases files with _ | ⟨file, _ | ⟨next, rest⟩⟩
    · rw [interruptedHeap, mergeHeap] <;> simp
    · rw [interruptedHeap, mergeHeap] <;> simp
    · simp at h
  | succ merges ih =>
    rcases files with _ | ⟨file0, _ | ⟨file1, rest⟩⟩
    · rw [interruptedHeap, mergeHeap] <;> simp
    · rw [interruptedHeap, mergeHeap] <;> simp
    · rw [interruptedHeap, mergeHeap]
      have hins : ∀ merged, (rest.orderedInsert ResultFile.le merged).length ≤ merges + 1 := by
        intro merged
        rw [List.orderedInsert_length]
        simp only [List.length_cons] at h
        omega
      funext s
      rw [Action.bind_apply, Action.bind_apply]
      rcases mergeFiles fmt codes file0 file1 s with ⟨s', e | merged⟩
      · rfl
      · exact congrFun (ih (hins merged)) s'

/-- A merge of stored files in which a call raises. It may have stored the merged file, and
removed some of its inputs. -/
theorem interruptedMerge_error (codes : Codes) {s : ResultStore} {f g : ResultFile}
    {cs ds : List (CandidatePair σ)} (hf : Stored fmt s f.filename cs)
    (hg : Stored fmt s g.filename ds) (hcs : Sorted cs) (hds : Sorted ds) (call : MergeCall) :
    ∃ objects n, interruptedMerge fmt codes call f g s =
        (⟨([f.filename, g.filename].take call.removed).foldl Dict.erase objects,
          s.similarityScores, n⟩, .error .s3Error) ∧ s.codes ≤ n ∧
      ∀ name, codes.filename s.codes ≠ name → objects.get? name = s.objects.get? name := by
  have hsorted : ∀ es ∈ [cs, ds], Sorted es := by
    intro es hes
    rcases List.mem_pair.mp hes with rfl | rfl
    · exact hcs
    · exact hds
  obtain ⟨es, size, hes, -, hmerge⟩ :=
    fmt.mergeStreamsIter_dump [cs, ds] [f.filesize, g.filesize] hsorted
  obtain ⟨merged, hunique, -, -, -⟩ := uniqueValuesIter_dump fmt hes
  unfold Stored CandidateFormat.dump at hf hg
  simp only [List.map_cons, List.map_nil] at hmerge
  have hset : ∀ (data : Bytes) name, codes.filename s.codes ≠ name →
      (s.objects.set (codes.filename s.codes) data).get? name = s.objects.get? name :=
    fun data name hne => Dict.get?_set_of_ne _ _ hne.symm
  cases call with
  | getFile0 => exact ⟨s.objects, s.codes, rfl, le_rfl, fun _ _ => rfl⟩
  | getFile1 =>
    refine ⟨s.objects, s.codes, ?_, le_rfl, fun _ _ => rfl⟩
    simp [interruptedMerge, getObject, Action.bind_apply, hf, orRaise, MergeCall.removed]
  | putMerged stored =>
    cases stored with
    | false =>
      refine ⟨s.objects, s.codes + 1, ?_, Nat.le_succ _, fun _ _ => rfl⟩
      simp [interruptedMerge, getObject, generateFilename, Action.bind_apply, hf, hg, orRaise,
        hmerge, hunique, MergeCall.removed]
    | true =>
      refine ⟨s.objects.set (codes.filename s.codes) (fmt.dump merged), s.codes + 1, ?_,
        Nat.le_succ _, hset _⟩
      simp [interruptedMerge, getObject, generateFilename, putObject, removeObjects,
        Action.bind_apply, hf, hg, orRaise, hmerge, hunique, MergeCall.removed,
        CandidateFormat.dump]
  | removeMerged removed =>
    refine ⟨s.objects.set (codes.filename s.codes) (fmt.dump merged), s.codes + 1, ?_,
      Nat.le_succ _, hset _⟩
    simp [interruptedMerge, getObject, generateFilename, putObject, removeObjects,
      Action.bind_apply, hf, hg, orRaise, hmerge, hunique, MergeCall.removed,
      CandidateFormat.dump]

/-- A merge removes its inputs, and no file appears but under a generated name. -/
theorem mergeFiles_lost {s s' : ResultStore} {f g merged : ResultFile} {files : List ResultFile}
    (h : Holds fmt codes s (f :: g :: files))
    (hmerge : mergeFiles fmt codes f g s = (s', .ok merged))
    {name : FileName} (hnew : codes.filename s.codes ≠ name)
    (hlost : name = f.filename ∨ name = g.filename ∨ s.objects.get? name = none) :
    s'.codes = s.codes + 1 ∧ s'.objects.get? name = none := by
  obtain ⟨cs, hf, hcs⟩ := h.stored f (by simp)
  obtain ⟨ds, hg, hds⟩ := h.stored g (by simp)
  obtain ⟨es, size, hok, -⟩ := mergeFiles_ok codes hf hg hcs hds
  obtain ⟨rfl, -⟩ := Prod.mk.inj (hmerge.symm.trans hok)
  refine ⟨rfl, ?_⟩
  by_cases hgn : name = g.filename
  · subst hgn
    exact Dict.get?_erase_self _ _
  · rw [Dict.get?_erase_of_ne _ hgn]
    by_cases hfn : name = f.filename
    · subst hfn
      exact Dict.get?_erase_self _ _
    · rw [Dict.get?_erase_of_ne _ hfn, Dict.get?_set_of_ne _ _ hnew.symm]
      exact (hlost.resolve_left hfn).resolve_left hgn

/-- The interruption is reached, and a file that is missing before is missing after it. -/
theorem interruptedHeap_error (call : MergeCall) {merges : ℕ} {s : ResultStore}
    {files : List ResultFile} (h : Holds fmt codes s files) (hlt : merges + 1 < files.length) :
    ∃ s', interruptedHeap fmt codes call merges files s = (s', .error .s3Error) ∧
      ∀ name, (∀ n, s.codes ≤ n → codes.filename n ≠ name) → s.objects.get? name = none →
        s'.objects.get? name = none := by
  induction merges generalizing s files with
  | zero =>
    obtain ⟨f, rest, rfl⟩ := List.exists_cons_of_length_pos (by omega : 0 < files.length)
    obtain ⟨g, rest, rfl⟩ := List.exists_cons_of_length_pos
      (by simpa using hlt : 0 < rest.length)
    obtain ⟨cs, hf, hcs⟩ := h.stored f (by simp)
    obtain ⟨ds, hg, hds⟩ := h.stored g (by simp)
    obtain ⟨objects, n, hmerge, -, hobjects⟩ := interruptedMerge_error codes hf hg hcs hds call
    refine ⟨_, by rw [interruptedHeap, Action.bind_of_error hmerge], fun name hnew hnone => ?_⟩
    rw [← hobjects name (hnew _ le_rfl)] at hnone
    exact Dict.get?_foldl_erase_of_none hnone
  | succ merges ih =>
    obtain ⟨f, rest, rfl⟩ := List.exists_cons_of_length_pos (by omega : 0 < files.length)
    obtain ⟨g, rest, rfl⟩ := List.exists_cons_of_length_pos
      (by simp only [List.length_cons] at hlt; omega : 0 < rest.length)
    obtain ⟨s', merged, hmerge, hholds, -, -, -⟩ := mergeFiles_step h
    have hperm := List.perm_orderedInsert ResultFile.le merged rest
    have hlt' : merges + 1 < (rest.orderedInsert ResultFile.le merged).length := by
      rw [List.orderedInsert_length]
      simp only [List.length_cons] at hlt
      omega
    obtain ⟨s'', hrun, hlost⟩ := ih (hholds.perm hperm.symm) hlt'
    refine ⟨s'', by rw [interruptedHeap, Action.bind_of_ok hmerge, hrun], fun name hnew hnone => ?_⟩
    obtain ⟨hcodes, hnone'⟩ :=
      mergeFiles_lost h hmerge (hnew _ le_rfl) (Or.inr (Or.inr hnone))
    exact hlost name (fun n hn => hnew n (by omega)) hnone'

/-- The content that a heap of at least two files is merged to. -/
theorem aggregateComparisons_heap {s : ResultStore} {results : List (Option PackageResult)}
    {files : List ResultFile} (hfiles : resultFiles results = .ok files)
    (h : Holds fmt codes s files) (htwo : 2 ≤ files.length) (runId : RunId) :
    ∃ s' name cs, aggregateComparisons fmt codes (some results) runId s = (s', .ok ()) ∧
      s'.similarityScores = s.similarityScores ++ [(runId, name)] ∧ Stored fmt s' name cs ∧
      Sorted cs ∧ cs.Nodup ∧ ∀ c, c ∈ cs ↔ Entry fmt s files c := by
  have hperm := List.perm_insertionSort ResultFile.le files
  have hlen := hperm.length_eq
  cases hsort : files.insertionSort ResultFile.le with
  | nil =>
    rw [hsort, List.length_nil] at hlen
    omega
  | cons file rest =>
    rw [hsort] at hperm hlen
    have hrest : rest ≠ [] := by
      rintro rfl
      rw [List.length_singleton] at hlen
      omega
    obtain ⟨s', last, hheap, hlast, hlastu, hlaste, hscores⟩ :=
      mergeHeap_ok (h.perm hperm.symm) (fun he => absurd he hrest)
    rw [← hsort] at hheap
    obtain ⟨cs, hcs, hsorted⟩ := hlast.stored last List.mem_cons_self
    refine ⟨_, last.filename, cs, aggregateComparisons_files hfiles hheap runId,
      congrArg (· ++ _) hscores, hcs, hsorted, hlastu last List.mem_cons_self cs hcs, fun c => ?_⟩
    rw [entry_perm hperm.symm, ← hlaste]
    simp only [Entry, List.mem_singleton, exists_eq_left]
    constructor
    · exact fun hc => ⟨cs, hcs, hc⟩
    · rintro ⟨ds, hds, hc⟩
      exact (hcs.unique fmt hds) ▸ hc

/-- Two stores whose heaps have the same entries are aggregated to the same content. -/
theorem records_of_entries {s s' : ResultStore} {results : List (Option PackageResult)}
    {files : List ResultFile} (hfiles : resultFiles results = .ok files)
    (h : Holds fmt codes s files) (h' : Holds fmt codes s' files) (htwo : 2 ≤ files.length)
    (hentry : ∀ c, Entry fmt s files c ↔ Entry fmt s' files c) (runId : RunId) :
    ∃ content, Records fmt codes results runId s content ∧
      Records fmt codes results runId s' content := by
  obtain ⟨t, name, cs, hrun, hrec, hcs, hsorted, hnodup, hmem⟩ :=
    aggregateComparisons_heap hfiles h htwo runId
  obtain ⟨t', name', ds, hrun', hrec', hds, hsorted', hnodup', hmem'⟩ :=
    aggregateComparisons_heap hfiles h' htwo runId
  have hperm : cs.Perm ds := (List.perm_ext_iff_of_nodup hnodup hnodup').mpr fun c =>
    (hmem c).trans ((hentry c).trans (hmem' c).symm)
  have heq : cs = ds := hperm.eq_of_pairwise' hsorted hsorted'
  exact ⟨fmt.dump cs, ⟨t, name, hrun, hrec, hcs⟩, ⟨t', name', hrun', hrec', heq ▸ hds⟩⟩

/-- Without its smallest file the aggregation raises again. -/
theorem aggregateComparisons_lost {s : ResultStore} {results : List (Option PackageResult)}
    {files rest : List ResultFile} {f g : ResultFile} (hfiles : resultFiles results = .ok files)
    (hsort : files.insertionSort ResultFile.le = f :: g :: rest)
    (hlost : s.objects.get? f.filename = none) (runId : RunId) :
    aggregateComparisons fmt codes (some results) runId s = (s, .error .s3Error) := by
  have hmerge : mergeFiles fmt codes f g s = (s, .error .s3Error) := by
    simp [mergeFiles, getObject, Action.bind_apply, hlost, orRaise]
  have hheap : mergeHeap fmt codes (f :: g :: rest) s = (s, .error .s3Error) := by
    rw [mergeHeap, Action.bind_of_error hmerge]
  simp [aggregateComparisons, orRaise, hfiles, Action.bind_apply, hsort, hheap]

/-- A heap whose files are all still there holds after the interruption. -/
theorem Holds.of_kept {s s' : ResultStore} {files : List ResultFile} (h : Holds fmt codes s files)
    (hcodes : s.codes ≤ s'.codes)
    (hkept : ∀ f ∈ files, s'.objects.get? f.filename = s.objects.get? f.filename) :
    Holds fmt codes s' files ∧ ∀ c, Entry fmt s files c ↔ Entry fmt s' files c := by
  have hstored : ∀ f ∈ files, ∀ cs, Stored fmt s' f.filename cs ↔ Stored fmt s f.filename cs := by
    intro f hf cs
    unfold Stored
    rw [hkept f hf]
  refine ⟨⟨fun f hf => ?_, h.distinct, fun n hn => h.fresh n (hcodes.trans hn)⟩, fun c => ?_⟩
  · obtain ⟨cs, hcs, hsorted⟩ := h.stored f hf
    exact ⟨cs, (hstored f hf cs).mpr hcs, hsorted⟩
  · unfold Entry
    refine exists_congr fun f => and_congr_right fun hf => exists_congr fun cs => ?_
    rw [hstored f hf cs]

/-- The first merge leaves the files of its heap when its interrupted call removes none. -/
theorem interruptedHeap_kept {call : MergeCall} (hcall : call.removed = 0) {s s' : ResultStore}
    {f g : ResultFile} {rest : List ResultFile} (h : Holds fmt codes s (f :: g :: rest))
    (hrun : interruptedHeap fmt codes call 0 (f :: g :: rest) s = (s', .error .s3Error)) :
    s.codes ≤ s'.codes ∧ ∀ name, name ∈ (f :: g :: rest).map ResultFile.filename →
      s'.objects.get? name = s.objects.get? name := by
  obtain ⟨cs, hf, hcs⟩ := h.stored f (by simp)
  obtain ⟨ds, hg, hds⟩ := h.stored g (by simp)
  obtain ⟨objects, n, hmerge, hn, hobjects⟩ := interruptedMerge_error codes hf hg hcs hds call
  rw [interruptedHeap, Action.bind_of_error hmerge] at hrun
  obtain ⟨rfl, -⟩ := Prod.mk.inj hrun
  refine ⟨hn, fun name hname => ?_⟩
  rw [hcall, List.take_zero, List.foldl_nil]
  exact hobjects name fun he => h.fresh s.codes le_rfl (he ▸ hname)

/-- Otherwise the first file of the heap is gone. -/
theorem interruptedHeap_lost {call : MergeCall} {merges : ℕ}
    (hremoved : ¬ (merges = 0 ∧ call.removed = 0)) {s s' : ResultStore} {f g : ResultFile}
    {rest : List ResultFile} (h : Holds fmt codes s (f :: g :: rest))
    (hlt : merges + 1 < (f :: g :: rest).length)
    (hrun : interruptedHeap fmt codes call merges (f :: g :: rest) s = (s', .error .s3Error)) :
    s'.objects.get? f.filename = none := by
  have hnew : ∀ n, s.codes ≤ n → codes.filename n ≠ f.filename := fun n hn he =>
    h.fresh n hn (by simp [he])
  cases merges with
  | zero =>
    obtain ⟨cs, hf, hcs⟩ := h.stored f (by simp)
    obtain ⟨ds, hg, hds⟩ := h.stored g (by simp)
    obtain ⟨objects, n, hmerge, -, -⟩ := interruptedMerge_error codes hf hg hcs hds call
    rw [interruptedHeap, Action.bind_of_error hmerge] at hrun
    obtain ⟨rfl, -⟩ := Prod.mk.inj hrun
    obtain ⟨k, hk⟩ := Nat.exists_eq_succ_of_ne_zero fun h0 => hremoved ⟨rfl, h0⟩
    rw [hk, Nat.succ_eq_add_one, List.take_succ_cons, List.foldl_cons]
    exact Dict.get?_foldl_erase_of_none (Dict.get?_erase_self _ _)
  | succ merges =>
    obtain ⟨s1, merged, hmerge, hholds, -, -, -⟩ := mergeFiles_step h
    obtain ⟨hcodes, hnone⟩ := mergeFiles_lost h hmerge (hnew _ le_rfl) (Or.inl rfl)
    have hperm := List.perm_orderedInsert ResultFile.le merged rest
    have hlt' : merges + 1 < (rest.orderedInsert ResultFile.le merged).length := by
      rw [List.orderedInsert_length]
      simp only [List.length_cons] at hlt
      omega
    obtain ⟨s2, hrest, hlost⟩ := interruptedHeap_error call (hholds.perm hperm.symm) hlt'
    rw [interruptedHeap, Action.bind_of_ok hmerge, hrest] at hrun
    obtain ⟨rfl, -⟩ := Prod.mk.inj hrun
    exact hlost f.filename (fun n hn => hnew n (by omega)) hnone

/-- An interruption within the loop leaves the store as the loop leaves it. -/
theorem interruptedAggregation_merge {results : List (Option PackageResult)}
    {files : List ResultFile} (hfiles : resultFiles results = .ok files) {call : MergeCall}
    {merges : ℕ} {s s' : ResultStore} (hrun : interruptedHeap fmt codes call merges
      (files.insertionSort ResultFile.le) s = (s', .error .s3Error)) (runId : RunId) :
    interruptedAggregation fmt codes (.merge merges call) (some results) runId s =
      (s', .error .s3Error) := by
  simp [interruptedAggregation, orRaise, hfiles, Action.bind_apply, hrun]

theorem exists_first_two {files : List ResultFile} (htwo : 2 ≤ files.length) :
    ∃ f g rest, files.insertionSort ResultFile.le = f :: g :: rest := by
  have hlen := (List.perm_insertionSort ResultFile.le files).length_eq
  rcases hs : files.insertionSort ResultFile.le with _ | ⟨f, _ | ⟨g, rest⟩⟩
  · rw [hs, List.length_nil] at hlen
    omega
  · rw [hs, List.length_singleton] at hlen
    omega
  · exact ⟨f, g, rest, rfl⟩

/-- Once a file has been removed, the retry misses the first file of the heap. -/
theorem RetrySafe.beforeRemoval {s : ResultStore} {results : List (Option PackageResult)}
    {packages : List (List (CandidatePair σ))} (h : Results fmt codes s results packages)
    {interruption : Interruption} (hpoint : interruption.Within (withPairs packages).length)
    {runId : RunId} (hsafe : RetrySafe fmt codes results runId s interruption) :
    interruption.BeforeRemoval := by
  obtain ⟨files, hfiles, hnames, hstored⟩ := resultFiles_ok h.returned
  have hholds := h.holds hnames hstored
  rw [← hstored.length_eq] at hpoint
  have hperm := List.perm_insertionSort ResultFile.le files
  cases interruption with
  | connect => trivial
  | merge merges call =>
    change merges + 1 < files.length at hpoint
    have htwo : 2 ≤ files.length := by omega
    obtain ⟨f, g, rest, hsort⟩ := exists_first_two htwo
    have hheap : Holds fmt codes s (f :: g :: rest) := hsort ▸ hholds.perm hperm.symm
    have hlt : merges + 1 < (f :: g :: rest).length := by
      rw [← hsort, hperm.length_eq]
      exact hpoint
    obtain ⟨s', hrun, -⟩ := interruptedHeap_error call hheap hlt
    obtain ⟨content, -, s'', name, hretry, -⟩ :=
      hsafe s' (interruptedAggregation_merge hfiles (hsort.symm ▸ hrun) runId)
    by_contra hremoved
    have hlost := interruptedHeap_lost hremoved hheap hlt hrun
    rw [aggregateComparisons_lost hfiles hsort hlost runId] at hretry
    cases hretry

/-- The retry is safe as long as no file of the results has been removed. -/
theorem retrySafe_iff {s : ResultStore} {results : List (Option PackageResult)}
    {packages : List (List (CandidatePair σ))} (h : Results fmt codes s results packages)
    (htwo : 2 ≤ (withPairs packages).length) {interruption : Interruption}
    (hpoint : interruption.Within (withPairs packages).length) (runId : RunId) :
    RetrySafe fmt codes results runId s interruption ↔ interruption.BeforeRemoval := by
  constructor
  · exact fun hsafe => hsafe.beforeRemoval h hpoint
  · intro hbefore s' hagg
    obtain ⟨files, hfiles, hnames, hstored⟩ := resultFiles_ok h.returned
    have hholds := h.holds hnames hstored
    rw [← hstored.length_eq] at htwo hpoint
    have hperm := List.perm_insertionSort ResultFile.le files
    cases interruption with
    | connect =>
      have hs' : s' = s := by
        simp only [interruptedAggregation, orRaise, hfiles, Action.bind_apply, Action.lift_apply,
          Action.raise_apply, Option.elim_some, Prod.mk.injEq] at hagg
        exact hagg.1.symm
      subst hs'
      exact records_of_entries hfiles hholds hholds htwo (fun _ => Iff.rfl) runId
    | merge merges call =>
      obtain ⟨rfl, hcall⟩ := hbefore
      obtain ⟨f, g, rest, hsort⟩ := exists_first_two htwo
      have hheap : Holds fmt codes s (f :: g :: rest) := hsort ▸ hholds.perm hperm.symm
      obtain ⟨s'', hrun, -⟩ := interruptedHeap_error call hheap (by simp : 0 + 1 < _)
      have hagg' := interruptedAggregation_merge hfiles (hsort.symm ▸ hrun) runId
      obtain ⟨rfl, -⟩ := Prod.mk.inj (hagg'.symm.trans hagg)
      obtain ⟨hcodes, hkept⟩ := interruptedHeap_kept hcall hheap hrun
      obtain ⟨hholds', hentry⟩ := hholds.of_kept hcodes fun f' hf' =>
        hkept f'.filename (List.mem_map_of_mem (hsort ▸ hperm.mem_iff.mpr hf'))
      exact records_of_entries hfiles hholds hholds' htwo hentry runId

end Merging

theorem retrySafe_put : RetrySafe doubleFormat longCodes
    [some (1, some 28, some "similarity-scores/b.bin"),
      some (1, some 28, some "similarity-scores/c.bin")] "run" twoFiles
    (.merge 0 (.putMerged true)) :=
  (retrySafe_iff results_twoFiles (by simp [withPairs]) (by simp [withPairs, Interruption.Within])
    "run").mpr ⟨rfl, rfl⟩

/-- The store after the comparisons of three packages, each with one candidate pair. -/
def threeFiles : ResultStore where
  objects := ⟨[("similarity-scores/b.bin", doubleFormat.dump [samplePair]),
    ("similarity-scores/c.bin", doubleFormat.dump [samplePair]),
    ("similarity-scores/d.bin", doubleFormat.dump [samplePair])], by decide⟩
  similarityScores := []
  codes := 0

def threeResults : List (Option PackageResult) :=
  [some (1, some 28, some "similarity-scores/b.bin"),
    some (1, some 28, some "similarity-scores/c.bin"),
    some (1, some 28, some "similarity-scores/d.bin")]

theorem results_threeFiles : Results doubleFormat longCodes threeFiles threeResults
    [[samplePair], [samplePair], [samplePair]] where
  returned := by
    have hb : Stored doubleFormat threeFiles "similarity-scores/b.bin" [samplePair] :=
      Dict.get?_eq_some.mpr (by simp [threeFiles])
    have hc : Stored doubleFormat threeFiles "similarity-scores/c.bin" [samplePair] :=
      Dict.get?_eq_some.mpr (by simp [threeFiles])
    have hd : Stored doubleFormat threeFiles "similarity-scores/d.bin" [samplePair] :=
      Dict.get?_eq_some.mpr (by simp [threeFiles])
    have hne := List.cons_ne_nil samplePair []
    exact .cons (.file hne hb) (.cons (.file hne hc) (.cons (.file hne hd) .nil))
  sorted cs hcs := by
    obtain rfl : cs = [samplePair] := by simpa using hcs
    exact List.pairwise_singleton _ _
  distinct := by decide
  fresh := filename_longCodes_not_mem (by decide)

/-- The second merge raises at its first call. The first merge has removed two of the files. -/
theorem not_retrySafe_secondMerge : Results doubleFormat longCodes threeFiles threeResults
      [[samplePair], [samplePair], [samplePair]] ∧
    ¬ RetrySafe doubleFormat longCodes threeResults "run" threeFiles (.merge 1 .getFile0) := by
  refine ⟨results_threeFiles, fun hsafe => ?_⟩
  have hbefore := hsafe.beforeRemoval results_threeFiles
    (by simp [withPairs, Interruption.Within])
  exact absurd hbefore.1 (by decide)

end EntityService.Tasks.Aggregation
