import EntityService.Lib.Sorting
import EntityService.Tasks.PackageResults

/-! The files of a run: each package is compared by a task of its own, in any order, and no task
touches the file of another. -/
namespace EntityService.Tasks.PackageResults
open Lib Aggregation Similarity

section Writes
variable {σ : Type} [LinearOrder σ] {fmt : SizedFormat σ} {codes : Codes} {s s' : ResultStore}

/-- A task writes one file under a name that has not been generated before, or nothing. -/
def WritesOne (codes : Codes) (s s' : ResultStore) (result : PackageResult) : Prop :=
  s' = s ∧ result.2.2 = none ∨
    ∃ data, s' = ⟨s.objects.set (codes.filename s.codes) data, s.similarityScores, s.codes + 1⟩ ∧
      result.2.2 = some (codes.filename s.codes)

omit [LinearOrder σ] in
theorem candidatePairs_eq_ok {r : ChunkResult σ} {pairs : List (CandidatePair σ)}
    (h : r.candidatePairs = .ok pairs) : r.datasetIndex0 < 2 ^ 32 ∧ r.datasetIndex1 < 2 ^ 32 := by
  obtain ⟨index1, hindex1, h⟩ := bind_eq_ok.mp h
  obtain ⟨index2, hindex2, h⟩ := bind_eq_ok.mp h
  exact ⟨(unsignedInt_eq_ok.mp hindex1).1, (unsignedInt_eq_ok.mp hindex2).1⟩

theorem saveResults_writes {simResults : List (ChunkResult σ)} {result : PackageResult}
    (h : saveResults fmt codes simResults s = (s', .ok result)) :
    WritesOne codes s s' result ∧ ∀ r ∈ simResults, r.sims ≠ [] →
      r.datasetIndex0 < 2 ^ 32 ∧ r.datasetIndex1 < 2 ^ 32 := by
  obtain ⟨_, chunkResults, hlift, h⟩ := Action.bind_eq_ok.mp h
  obtain ⟨rfl, hchunkResults⟩ := Prod.mk.inj hlift
  refine ⟨?_, fun r hr hne => ?_⟩
  · rcases chunkResults with _ | ⟨pairs, _ | ⟨pairs', rest⟩⟩
    · obtain ⟨rfl, hresult⟩ := Prod.mk.inj h
      obtain rfl := Except.ok.inj hresult
      exact .inl ⟨rfl, rfl⟩
    · obtain ⟨rfl, hresult⟩ := Prod.mk.inj h
      obtain rfl := Except.ok.inj hresult
      exact .inr ⟨_, rfl, rfl⟩
    · dsimp only at h
      obtain ⟨_, ⟨merged, size⟩, hmerge, h⟩ := Action.bind_eq_ok.mp h
      obtain ⟨rfl, -⟩ := Prod.mk.inj hmerge
      obtain ⟨rfl, hresult⟩ := Prod.mk.inj h
      obtain rfl := Except.ok.inj hresult
      exact .inr ⟨_, rfl, rfl⟩
  · have hlength : r.sims.length ≠ 0 := fun hzero => hne (List.length_eq_zero_iff.mp hzero)
    have hmem : r ∈ simResults.filter fun r => r.sims.length ≠ 0 :=
      List.mem_filter.mpr ⟨hr, by simpa using hlength⟩
    obtain ⟨pairs, -, hpairs⟩ := (mapM_mem hchunkResults).2 r hmem
    exact candidatePairs_eq_ok hpairs

theorem saveResults_error {simResults : List (ChunkResult σ)} {e : Error}
    (h : saveResults fmt codes simResults s = (s', .error e)) : s' = s := by
  rcases Action.bind_eq_error.mp h with h | ⟨_, chunkResults, hlift, h⟩
  · exact (Prod.mk.inj h).1.symm
  obtain ⟨rfl, -⟩ := Prod.mk.inj hlift
  rcases chunkResults with _ | ⟨pairs, _ | ⟨pairs', rest⟩⟩
  · cases h
  · cases h
  · dsimp only at h
    rcases Action.bind_eq_error.mp h with h | ⟨_, ⟨merged, size⟩, -, h⟩
    · exact (Prod.mk.inj h).1.symm
    · cases h

end Writes

section Task
variable {σ : Type} [LinearOrder σ] {anonlink : SimilarityFunction σ} {fmt : SizedFormat σ}
  {codes : Codes} {db : Database} {size : ℕ} {encodings : DpId → List Bytes} {threshold : σ}
  {package : Package} {s s' : ResultStore}

/-- A task that raises an exception writes nothing. -/
theorem computeFilterSimilarity_error {active : Bool} {globalCandidatesForRun : Option ℕ}
    {maxCandidatePairs : ℕ} {e : Error}
    (h : computeFilterSimilarity fmt codes anonlink db threshold size active
      globalCandidatesForRun maxCandidatePairs package s = (s', .error e)) : s' = s := by
  unfold computeFilterSimilarity at h
  by_cases hactive : active = false
  · rw [if_pos hactive] at h
    cases h
  rw [if_neg hactive] at h
  rcases Action.bind_eq_error.mp h with h | ⟨_, fetched, hlift, h⟩
  · exact (Prod.mk.inj h).1.symm
  obtain ⟨rfl, hfetched⟩ := Prod.mk.inj hlift
  cases hsimResults : fetched.mapM (compareChunk anonlink threshold) with
  | error e' =>
    rw [hsimResults] at h
    cases e' with
    | notImplementedError => cases h
    | _ => exact (Prod.mk.inj h).1.symm
  | ok simResults =>
    rw [hsimResults] at h
    dsimp only at h
    by_cases hlimit : ∃ count ∈ globalCandidatesForRun, maxCandidatePairs < count
    · rw [if_pos hlimit] at h
      cases h
    rw [if_neg hlimit] at h
    rcases Action.bind_eq_error.mp h with h | ⟨s'', saved, hsave, h⟩
    · exact saveResults_error h
    · cases h

end Task
/-- The objects of a store stay, and the names of new ones have not been generated before. -/
structure Extends (codes : Codes) (s s' : ResultStore) : Prop where
  codes_le : s.codes ≤ s'.codes
  kept : ∀ name, (∀ n, s.codes ≤ n → name ≠ codes.filename n) →
    s'.objects.get? name = s.objects.get? name
  scores : s'.similarityScores = s.similarityScores

section Extends
variable {codes : Codes} {s s' s'' : ResultStore}

theorem Extends.refl (codes : Codes) (s : ResultStore) : Extends codes s s :=
  ⟨le_rfl, fun _ _ => rfl, rfl⟩

theorem Extends.trans (h : Extends codes s s') (h' : Extends codes s' s'') :
    Extends codes s s'' where
  codes_le := h.codes_le.trans h'.codes_le
  kept name hname := (h'.kept name fun n hn => hname n (h.codes_le.trans hn)).trans
    (h.kept name hname)
  scores := h'.scores.trans h.scores

theorem WritesOne.extends {result : PackageResult} (h : WritesOne codes s s' result) :
    Extends codes s s' := by
  rcases h with ⟨rfl, -⟩ | ⟨data, rfl, -⟩
  · exact .refl codes s'
  · exact ⟨Nat.le_succ _, fun name hname => Dict.get?_set_of_ne _ _ (hname s.codes le_rfl), rfl⟩

theorem WritesOne.name {result : PackageResult} (h : WritesOne codes s s' result)
    {name : FileName} (hname : result.2.2 = some name) :
    name = codes.filename s.codes ∧ s'.codes = s.codes + 1 := by
  rcases h with ⟨-, hnone⟩ | ⟨data, rfl, hsome⟩
  · rw [hnone] at hname
    cases hname
  · exact ⟨Option.some.inj (hname.symm.trans hsome), rfl⟩

/-- Objects that exist under another name than the coming ones are those from before. -/
theorem Extends.mem_keys (h : Extends codes s s') {name : FileName}
    (hmem : name ∈ s'.objects.keys) : name ∈ s.objects.keys ∨ ∃ n, name = codes.filename n := by
  by_cases hname : ∃ n, name = codes.filename n
  · exact .inr hname
  · have hkept := h.kept name fun n _ he => hname ⟨n, he⟩
    rw [← Dict.get?_isSome, hkept, Dict.get?_isSome] at hmem
    exact .inl hmem

end Extends

section Executed
variable {σ : Type} [LinearOrder σ] (anonlink : SimilarityFunction σ) (fmt : SizedFormat σ)
  (codes : Codes) (db : Database) (size : ℕ) (threshold : σ)

/-- The tasks of packages have run one after the other. One that raised an exception was retried, as
was one whose result was lost with its worker. What the cache said was different for each. -/
inductive Executed : ResultStore → List (Package × PackageResult) → ResultStore → Prop
  | nil {s : ResultStore} : Executed s [] s
  | returned {s s' s'' : ResultStore} {active : Bool} {globalCandidatesForRun : Option ℕ}
      {maxCandidatePairs : ℕ} {package : Package} {result : PackageResult}
      {rest : List (Package × PackageResult)}
      (h : computeFilterSimilarity fmt codes anonlink db threshold size active
        globalCandidatesForRun maxCandidatePairs package s = (s', .ok (some result)))
      (hrest : Executed s' rest s'') : Executed s ((package, result) :: rest) s''
  | retried {s s' s'' : ResultStore} {active : Bool} {globalCandidatesForRun : Option ℕ}
      {maxCandidatePairs : ℕ} {package : Package} {e : Error}
      {rest : List (Package × PackageResult)}
      (h : computeFilterSimilarity fmt codes anonlink db threshold size active
        globalCandidatesForRun maxCandidatePairs package s = (s', .error e))
      (hrest : Executed s' rest s'') : Executed s rest s''
  | lost {s s' s'' : ResultStore} {active : Bool} {globalCandidatesForRun : Option ℕ}
      {maxCandidatePairs : ℕ} {package : Package} {result : PackageResult}
      {rest : List (Package × PackageResult)}
      (h : computeFilterSimilarity fmt codes anonlink db threshold size active
        globalCandidatesForRun maxCandidatePairs package s = (s', .ok (some result)))
      (hrest : Executed s' rest s'') : Executed s rest s''

variable {anonlink fmt codes db size threshold} {encodings : DpId → List Bytes}
  {executed : List (Package × PackageResult)} {s s' : ResultStore}

def fileOf (e : Package × PackageResult) : Option FileName := e.2.2.2

def packagePairs (db : Database) (size : ℕ) (encodings : DpId → List Bytes)
    (anonlink : SimilarityFunction σ) (threshold : σ) (package : Package) :
    List (CandidatePair σ) :=
  package.flatMap (foundPairs db size encodings anonlink threshold package)

/-- A result stays what the aggregation expects of it. -/
theorem returned_mono {result : PackageResult} {entries : List (CandidatePair σ)}
    (h : Returned fmt.toCandidateFormat s (some result) entries) (hextends : Extends codes s s')
    (hname : ∀ name, result.2.2 = some name → ∀ n, s.codes ≤ n → name ≠ codes.filename n) :
    Returned fmt.toCandidateFormat s' (some result) entries := by
  cases h with
  | none => exact .none
  | file hcs hstored =>
    exact .file hcs ((hextends.kept _ (hname _ rfl)).trans hstored)

section Stored
variable (hstored : ∀ e ∈ executed, ∀ chunks ∈ e.1,
  StoredOnce db size encodings chunks.1 ∧ StoredOnce db size encodings chunks.2)
include hstored

theorem Executed.extends (h : Executed anonlink fmt codes db size threshold s executed s') :
    Extends codes s s' := by
  induction h with
  | nil => exact .refl codes _
  | returned h _ ih =>
    obtain ⟨simResults, -, hsave⟩ :=
      of_computeFilterSimilarity (hstored _ List.mem_cons_self) h
    have hfirst := (saveResults_writes hsave).1.extends
    exact hfirst.trans (ih fun e he => hstored e (List.mem_cons_of_mem _ he))
  | retried h _ ih =>
    rw [← computeFilterSimilarity_error h]
    exact ih hstored
  | lost h _ ih =>
    obtain ⟨fetched, simResults, -, -, hsave⟩ := computeFilterSimilarity_eq_some h
    exact (saveResults_writes hsave).1.extends.trans (ih hstored)

/-- Each result belongs to the pairs that are found for its package, and no two of them share a
file. -/
theorem Executed.results (h : Executed anonlink fmt codes db size threshold s executed s') :
    (∀ e ∈ executed, ∃ entries, Returned fmt.toCandidateFormat s' (some e.2) entries ∧
      Sorted entries ∧ entries.Perm (packagePairs db size encodings anonlink threshold e.1)) ∧
    (executed.filterMap fileOf).Nodup ∧
    ∀ name ∈ executed.filterMap fileOf, ∃ n, s.codes ≤ n ∧ name = codes.filename n := by
  induction h with
  | nil => exact ⟨by simp, by simp, by simp⟩
  | retried h _ ih =>
    rw [← computeFilterSimilarity_error h]
    exact ih hstored
  | lost h _ ih =>
    obtain ⟨fetched, simResults, -, -, hsave⟩ := computeFilterSimilarity_eq_some h
    obtain ⟨hresults, hnodup, hnames⟩ := ih hstored
    refine ⟨hresults, hnodup, fun name hname => ?_⟩
    obtain ⟨n, hn, he⟩ := hnames name hname
    exact ⟨n, (saveResults_writes hsave).1.extends.codes_le.trans hn, he⟩
  | @returned s s' s'' active count limit package result rest h hrest ih =>
    have hrestStored : ∀ e ∈ rest, ∀ chunks ∈ e.1,
        StoredOnce db size encodings chunks.1 ∧ StoredOnce db size encodings chunks.2 :=
      fun e he => hstored e (List.mem_cons_of_mem _ he)
    have hpackage := hstored (package, result) List.mem_cons_self
    obtain ⟨hresults, hnodup, hnames⟩ := ih hrestStored
    obtain ⟨simResults, hsimResults, hsave⟩ := of_computeFilterSimilarity hpackage h
    have hwrites := (saveResults_writes hsave).1
    have hextends := hrest.extends hrestStored
    have hfile := saveResults_ok (forall₂_compareChunk anonlink threshold hpackage hsimResults)
      (sorted_found anonlink threshold hpackage) hsave
    rw [← List.flatMap_def] at hfile
    obtain ⟨entries, hreturned, hsorted, hperm⟩ := hfile.returned
    -- the names of the other files come later
    have hlater : ∀ name, fileOf (package, result) = some name → ∀ n, s'.codes ≤ n →
        name ≠ codes.filename n := by
      intro name hname n hn he
      obtain ⟨rfl, hcodes⟩ := hwrites.name hname
      have hsame := codes.filename_injective he
      omega
    refine ⟨fun e he => ?_, ?_, fun name hname => ?_⟩
    · rcases List.mem_cons.mp he with rfl | he
      · exact ⟨entries, returned_mono hreturned hextends hlater, hsorted, hperm⟩
      · exact hresults e he
    · cases hname : fileOf (package, result) with
      | none => rwa [List.filterMap_cons_none hname]
      | some name =>
        rw [List.filterMap_cons_some hname]
        refine List.nodup_cons.mpr ⟨fun hmem => ?_, hnodup⟩
        obtain ⟨n, hn, he⟩ := hnames name hmem
        exact hlater name hname n hn he
    · cases hsome : fileOf (package, result) with
      | none =>
        rw [List.filterMap_cons_none hsome] at hname
        obtain ⟨n, hn, he⟩ := hnames name hname
        exact ⟨n, hwrites.extends.codes_le.trans hn, he⟩
      | some first =>
        rw [List.filterMap_cons_some hsome] at hname
        rcases List.mem_cons.mp hname with rfl | hname
        · exact ⟨s.codes, le_rfl, (hwrites.name hsome).1⟩
        · obtain ⟨n, hn, he⟩ := hnames name hname
          exact ⟨n, hwrites.extends.codes_le.trans hn, he⟩

/-- What a task that has returned says about its chunk pairs. -/
theorem Executed.compared (h : Executed anonlink fmt codes db size threshold s executed s') :
    ∀ e ∈ executed, ∀ chunks ∈ e.1, ∃ sims,
      runOn db size encodings anonlink threshold e.1 chunks = .ok sims ∧
        (sims ≠ [] → chunks.1.datasetIndex < 2 ^ 32 ∧ chunks.2.datasetIndex < 2 ^ 32) := by
  induction h with
  | nil => simp
  | retried _ _ ih | lost _ _ ih => exact ih hstored
  | @returned s s' s'' active count limit package result rest h hrest ih =>
    intro e he chunks hchunks
    rcases List.mem_cons.mp he with rfl | he
    · have hpackage := hstored (package, result) List.mem_cons_self
      obtain ⟨simResults, hsimResults, hsave⟩ := of_computeFilterSimilarity hpackage h
      rw [List.mapM_map] at hsimResults
      obtain ⟨r, hr, hcompare⟩ := (mapM_mem hsimResults).2 chunks hchunks
      obtain ⟨hstored1, hstored2⟩ := hpackage chunks hchunks
      obtain ⟨-, sims, hsims, rfl⟩ := (compareChunk_eq_ok hstored1 hstored2).mp hcompare
      exact ⟨sims, hsims, fun hne => (saveResults_writes hsave).2 _ hr (by simpa using hne)⟩
    · exact ih (fun e he => hstored e (List.mem_cons_of_mem _ he)) e he chunks hchunks

/-- Whatever the order in which the tasks have run, their results are what the aggregation
expects, if it generates other names. -/
theorem Executed.aggregable (h : Executed anonlink fmt codes db size threshold s executed s')
    {packages : List Package} {results : List PackageResult}
    (hperm : executed.Perm (packages.zip results)) (hlength : packages.length = results.length)
    {codes' : Codes} (hdistinct : ∀ m n, codes.filename m ≠ codes'.filename n)
    (hfresh : ∀ n, codes'.filename n ∉ s.objects.keys) :
    ∃ entries, Results fmt.toCandidateFormat codes' s' (results.map some) entries ∧
      List.Forall₂ (fun package cs =>
        cs.Perm (packagePairs db size encodings anonlink threshold package)) packages entries := by
  obtain ⟨hresults, hnodup, -⟩ := h.results hstored
  have hall : ∀ e ∈ packages.zip results, ∃ cs,
      (Returned fmt.toCandidateFormat s' (some e.2) cs ∧ Sorted cs) ∧
        cs.Perm (packagePairs db size encodings anonlink threshold e.1) := by
    intro e he
    obtain ⟨cs, hreturned, hsorted, hfound⟩ := hresults e (hperm.mem_iff.mpr he)
    exact ⟨cs, ⟨hreturned, hsorted⟩, hfound⟩
  obtain ⟨entries, hentries⟩ := exists_forall₂ hall
  have hzip1 : (packages.zip results).map Prod.fst = packages := List.map_fst_zip hlength.le
  have hzip2 : (packages.zip results).map Prod.snd = results := List.map_snd_zip hlength.ge
  refine ⟨entries, ⟨?_, fun cs hcs => ?_, ?_, fun n hmem => ?_⟩, ?_⟩
  · rw [← hzip2, List.map_map, List.forall₂_map_left_iff]
    exact hentries.imp fun e cs he => he.1.1
  · obtain ⟨e, -, he⟩ := exists_of_forall₂ hentries hcs
    exact he.1.2
  · have hnames : resultNames (results.map some) = (packages.zip results).filterMap fileOf := by
      conv_lhs => rw [← hzip2]
      rw [resultNames, List.map_map, List.filterMap_map]
      rfl
    rw [hnames]
    exact (hperm.filterMap fileOf).nodup_iff.mp hnodup
  · rcases (h.extends hstored).mem_keys hmem with hmem | ⟨m, he⟩
    · exact hfresh n hmem
    · exact hdistinct m n he.symm
  · rw [← hzip1, List.forall₂_map_left_iff]
    exact hentries.imp fun e cs he => he.2

end Stored
end Executed
end EntityService.Tasks.PackageResults
