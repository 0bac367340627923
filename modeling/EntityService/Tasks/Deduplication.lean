import EntityService.Tasks.Aggregation
import EntityService.Serialization

/-! What the aggregation of a run does to repeated candidate pairs. They are removed when
files are merged, so a run with a single result file keeps the ones inside that file. -/
namespace EntityService.Tasks.Aggregation
open Lib

section Merging
variable {σ : Type} [LinearOrder σ] (fmt : CandidateFormat σ) (codes : Codes)

/-- The store has a file with the given entries. -/
def Stored (s : ResultStore) (filename : FileName) (cs : List (CandidatePair σ)) : Prop :=
  s.objects.get? filename = some (fmt.dump cs)

theorem Stored.unique {s : ResultStore} {filename : FileName} {cs ds : List (CandidatePair σ)}
    (h : Stored fmt s filename cs) (h' : Stored fmt s filename ds) : cs = ds :=
  fmt.dump_injective (Option.some.inj (h.symm.trans h'))

/-- The files of a heap are in the store, each sorted and under a name of its own that is
not generated again. -/
structure Holds (s : ResultStore) (files : List ResultFile) : Prop where
  stored : ∀ f ∈ files, ∃ cs, Stored fmt s f.filename cs ∧ Sorted cs
  distinct : (files.map ResultFile.filename).Nodup
  fresh : ∀ n, s.codes ≤ n → codes.filename n ∉ files.map ResultFile.filename

def Entry (s : ResultStore) (files : List ResultFile) (c : CandidatePair σ) : Prop :=
  ∃ f ∈ files, ∃ cs, Stored fmt s f.filename cs ∧ c ∈ cs

/-- No file of the heap contains an entry twice. -/
def Unrepeated (s : ResultStore) (files : List ResultFile) : Prop :=
  ∀ f ∈ files, ∀ cs, Stored fmt s f.filename cs → cs.Nodup

variable {fmt codes}

theorem Holds.perm {s : ResultStore} {files files' : List ResultFile} (h : Holds fmt codes s files)
    (hp : files.Perm files') : Holds fmt codes s files' where
  stored f hf := h.stored f (hp.mem_iff.mpr hf)
  distinct := (hp.map _).nodup_iff.mp h.distinct
  fresh n hn hm := h.fresh n hn ((hp.map _).mem_iff.mpr hm)

theorem entry_perm {s : ResultStore} {files files' : List ResultFile} (hp : files.Perm files')
    (c : CandidatePair σ) : Entry fmt s files c ↔ Entry fmt s files' c := by
  unfold Entry
  simp only [hp.mem_iff]

theorem uniqueValuesIter_dump (fmt : CandidateFormat σ) {cs : List (CandidatePair σ)}
    (hs : Sorted cs) :
    ∃ merged, uniqueValuesIter (fmt.header :: cs.map fmt.entry) =
        .ok (fmt.header :: merged.map fmt.entry) ∧
      Sorted merged ∧ merged.Nodup ∧ ∀ c, c ∈ merged ↔ c ∈ cs := by
  have hcons := destutter_cons_map_ne fmt.entry_injective fmt.entry_ne_header cs
  rw [List.destutter_cons'] at hcons
  refine ⟨cs.destutter (· ≠ ·), congrArg Except.ok hcons, ?_, ?_, ?_⟩
  · exact hs.sublist (List.destutter_sublist _ cs)
  · exact nodup_destutter_ne hs
  · exact mem_destutter_ne hs

/-- Merging two stored files stores one sorted file that has each of their entries once. -/
theorem mergeFiles_ok (codes : Codes) {s : ResultStore} {f g : ResultFile}
    {cs ds : List (CandidatePair σ)}
    (hf : Stored fmt s f.filename cs) (hg : Stored fmt s g.filename ds) (hcs : Sorted cs)
    (hds : Sorted ds) :
    ∃ merged size, mergeFiles fmt codes f g s =
        (⟨((s.objects.set (codes.filename s.codes) (fmt.dump merged)).erase f.filename).erase
            g.filename, s.similarityScores, s.codes + 1⟩,
          .ok ⟨f.num + g.num, size, codes.filename s.codes⟩) ∧
      Sorted merged ∧ merged.Nodup ∧ ∀ c, c ∈ merged ↔ c ∈ cs ∨ c ∈ ds := by
  have hsorted : ∀ es ∈ [cs, ds], Sorted es := by
    intro es hes
    rcases List.mem_pair.mp hes with rfl | rfl
    · exact hcs
    · exact hds
  obtain ⟨es, size, hes, hperm, hmerge⟩ :=
    fmt.mergeStreamsIter_dump [cs, ds] [f.filesize, g.filesize] hsorted
  obtain ⟨merged, hunique, hm, hn, hmem⟩ := uniqueValuesIter_dump fmt hes
  refine ⟨merged, size, ?_, hm, hn, ?_⟩
  · unfold Stored CandidateFormat.dump at hf hg
    simp only [List.map_cons, List.map_nil] at hmerge
    simp only [mergeFiles, getObject, generateFilename, putObject, removeObjects,
      Action.bind_apply, Action.get_apply, hf, hg, orRaise, Option.elim_some, Action.lift_apply,
      hmerge, Action.modify_apply, Action.pure_apply, hunique, List.foldl_cons, List.foldl_nil,
      List.flatten_cons, CandidateFormat.dump]
  · intro c
    rw [hmem, hperm.mem_iff]
    simp

/-- One turn of the loop keeps the entries of the heap, and its new file repeats none. -/
theorem mergeFiles_step {s : ResultStore} {f g : ResultFile} {files : List ResultFile}
    (h : Holds fmt codes s (f :: g :: files)) :
    ∃ s' merged, mergeFiles fmt codes f g s = (s', .ok merged) ∧
      Holds fmt codes s' (merged :: files) ∧ Unrepeated fmt s' [merged] ∧
      (∀ c, Entry fmt s' (merged :: files) c ↔ Entry fmt s (f :: g :: files) c) ∧
      s'.similarityScores = s.similarityScores := by
  obtain ⟨cs, hf, hcs⟩ := h.stored f (by simp)
  obtain ⟨ds, hg, hds⟩ := h.stored g (by simp)
  obtain ⟨merged, size, hmerge, hsorted, hnodup, hmem⟩ :=
    mergeFiles_ok codes hf hg hcs hds
  have hdistinct := h.distinct
  have hfresh := h.fresh
  simp only [List.map_cons, List.nodup_cons, List.mem_cons, not_or] at hdistinct hfresh
  obtain ⟨hnf, hng, hnfiles⟩ := hfresh s.codes le_rfl
  -- the files that are not merged stay, and the new file does not take the name of one
  have hnew : Stored fmt (mergeFiles fmt codes f g s).1 (codes.filename s.codes) merged := by
    rw [hmerge]
    unfold Stored
    rw [Dict.get?_erase_of_ne _ hng, Dict.get?_erase_of_ne _ hnf, Dict.get?_set_self]
  have hkept : ∀ f' ∈ files, ∀ es, Stored fmt (mergeFiles fmt codes f g s).1 f'.filename es ↔
      Stored fmt s f'.filename es := by
    intro f' hf' es
    have hm := List.mem_map_of_mem (f := ResultFile.filename) hf'
    have h1 : f'.filename ≠ f.filename := fun he => hdistinct.1.2 (he ▸ hm)
    have h2 : f'.filename ≠ g.filename := fun he => hdistinct.2.1 (he ▸ hm)
    have h3 : f'.filename ≠ codes.filename s.codes := fun he => hnfiles (he ▸ hm)
    rw [hmerge]
    unfold Stored
    rw [Dict.get?_erase_of_ne _ h2, Dict.get?_erase_of_ne _ h1, Dict.get?_set_of_ne _ _ h3]
  refine ⟨(mergeFiles fmt codes f g s).1, ⟨f.num + g.num, size, codes.filename s.codes⟩, ?_,
    ⟨?_, ?_, ?_⟩, ?_, ?_, ?_⟩
  · rw [hmerge]
  · intro f' hf'
    rcases List.mem_cons.mp hf' with rfl | hf'
    · exact ⟨merged, hnew, hsorted⟩
    · obtain ⟨es, hes, hs⟩ := h.stored f' (by simp [hf'])
      exact ⟨es, (hkept f' hf' es).mpr hes, hs⟩
  · exact List.nodup_cons.mpr ⟨hnfiles, hdistinct.2.2⟩
  · intro n hn hm
    rw [hmerge] at hn
    rcases List.mem_cons.mp hm with he | hm
    · have := codes.filename_injective he
      change s.codes + 1 ≤ n at hn
      omega
    · change s.codes + 1 ≤ n at hn
      exact (hfresh n (by omega)).2.2 hm
  · intro f' hf' es hes
    obtain rfl := List.mem_singleton.mp hf'
    exact (hnew.unique fmt hes) ▸ hnodup
  · intro c
    constructor
    · rintro ⟨f', hf', es, hes, hc⟩
      rcases List.mem_cons.mp hf' with rfl | hf'
      · obtain rfl := hnew.unique fmt hes
        rcases (hmem c).mp hc with hc | hc
        · exact ⟨f, by simp, cs, hf, hc⟩
        · exact ⟨g, by simp, ds, hg, hc⟩
      · exact ⟨f', by simp [hf'], es, (hkept f' hf' es).mp hes, hc⟩
    · rintro ⟨f', hf', es, hes, hc⟩
      rcases List.mem_cons.mp hf' with rfl | hf'
      · obtain rfl := hf.unique fmt hes
        exact ⟨_, List.mem_cons_self, merged, hnew, (hmem c).mpr (Or.inl hc)⟩
      · rcases List.mem_cons.mp hf' with rfl | hf'
        · obtain rfl := hg.unique fmt hes
          exact ⟨_, List.mem_cons_self, merged, hnew, (hmem c).mpr (Or.inr hc)⟩
        · exact ⟨f', by simp [hf'], es, (hkept f' hf' es).mpr hes, hc⟩
  · rw [hmerge]

/-- The loop leaves one file with the entries of the whole heap. It repeats none when a merge
took place. -/
theorem mergeHeap_ok {s : ResultStore} {file : ResultFile} {files : List ResultFile}
    (h : Holds fmt codes s (file :: files)) (hu : files = [] → Unrepeated fmt s [file]) :
    ∃ s' last, mergeHeap fmt codes (file :: files) s = (s', .ok [last]) ∧
      Holds fmt codes s' [last] ∧ Unrepeated fmt s' [last] ∧
      (∀ c, Entry fmt s' [last] c ↔ Entry fmt s (file :: files) c) ∧
      s'.similarityScores = s.similarityScores := by
  induction hn : files.length generalizing s file files with
  | zero =>
    obtain rfl := List.length_eq_zero_iff.mp hn
    exact ⟨s, file, by simp [mergeHeap], h, hu rfl, fun _ => Iff.rfl, rfl⟩
  | succ n ih =>
    obtain ⟨g, rest, rfl⟩ := List.exists_cons_of_length_eq_add_one hn
    obtain ⟨s', merged, hmerge, hholds, hunrep, hentry, hscores⟩ := mergeFiles_step h
    have hperm := List.perm_orderedInsert ResultFile.le merged rest
    have hlen := hperm.length_eq
    cases hins : rest.orderedInsert ResultFile.le merged with
    | nil =>
      rw [hins] at hlen
      simp at hlen
    | cons next others =>
      rw [hins] at hperm
      have hothers : others.length = n := by
        have hl := hperm.length_eq
        simp only [List.length_cons] at hl hn
        omega
      have hu' : others = [] → Unrepeated fmt s' [next] := by
        rintro rfl
        have hr : rest = [] := List.length_eq_zero_iff.mp (by simpa using hperm.length_eq.symm)
        subst hr
        obtain rfl : next = merged := by simpa using hperm
        exact hunrep
      obtain ⟨s'', last, hheap, hlast, hlastu, hlaste, hlasts⟩ :=
        ih (hholds.perm hperm.symm) hu' hothers
      refine ⟨s'', last, ?_, hlast, hlastu, ?_, hlasts.trans hscores⟩
      · rw [mergeHeap, Action.bind_of_ok hmerge, hins, hheap]
      · intro c
        rw [hlaste, entry_perm hperm, hentry]

/-- What the comparison of a package returns for its candidate pairs. -/
inductive Returned (fmt : CandidateFormat σ) (s : ResultStore) :
    Option PackageResult → List (CandidatePair σ) → Prop
  | none : Returned fmt s (some (0, none, none)) []
  | file {cs : List (CandidatePair σ)} {size : ℕ} {name : FileName} (hcs : cs ≠ [])
      (hstored : Stored fmt s name cs) : Returned fmt s (some (cs.length, some size, some name)) cs

def resultNames (results : List (Option PackageResult)) : List FileName :=
  results.filterMap fun res => res.bind fun r => r.2.2

/-- The results of a run: sorted files under names that are neither shared nor generated again. -/
structure Results (fmt : CandidateFormat σ) (codes : Codes) (s : ResultStore)
    (results : List (Option PackageResult)) (packages : List (List (CandidatePair σ))) : Prop where
  returned : List.Forall₂ (Returned fmt s) results packages
  sorted : ∀ cs ∈ packages, Sorted cs
  distinct : (resultNames results).Nodup
  fresh : ∀ n, codes.filename n ∉ s.objects.keys

/-- The packages that have candidate pairs. -/
def withPairs (packages : List (List (CandidatePair σ))) : List (List (CandidatePair σ)) :=
  packages.filter (fun p => !p.isEmpty)

omit [LinearOrder σ] in
theorem mem_withPairs {packages : List (List (CandidatePair σ))} {p : List (CandidatePair σ)} :
    p ∈ withPairs packages ↔ p ∈ packages ∧ p ≠ [] := by
  simp [withPairs]

theorem resultFiles_ok {s : ResultStore} {results : List (Option PackageResult)}
    {packages : List (List (CandidatePair σ))}
    (h : List.Forall₂ (Returned fmt s) results packages) :
    ∃ files, resultFiles results = .ok files ∧ files.map ResultFile.filename = resultNames results ∧
      List.Forall₂ (fun f cs => Stored fmt s f.filename cs) files (withPairs packages) := by
  unfold resultFiles
  simp only [pure_eq_ok, bind_eq_ok, Except.ok.injEq]
  induction h with
  | nil => exact ⟨[], ⟨[], by simp, rfl⟩, rfl, List.Forall₂.nil⟩
  | @cons res cs results packages hr _ ih =>
    obtain ⟨files, ⟨opts, hopts, rfl⟩, hnames, hstored⟩ := ih
    rw [mapM_eq_ok] at hopts
    cases hr with
    | none =>
      refine ⟨opts.reduceOption, ⟨none :: opts, mapM_eq_ok.mpr (.cons rfl hopts), rfl⟩, ?_, ?_⟩
      · simpa [resultNames] using hnames
      · exact hstored
    | @file _ size name hcs hs =>
      have hres : resultFile (some (cs.length, some size, some name)) =
          .ok (some ⟨cs.length, size, name⟩) := by
        have hlen : cs.length ≠ 0 := fun h0 => hcs (List.length_eq_zero_iff.mp h0)
        simp [resultFile, orRaise, hlen]
      refine ⟨⟨cs.length, size, name⟩ :: opts.reduceOption,
        ⟨_ :: opts, mapM_eq_ok.mpr (.cons hres hopts), rfl⟩, ?_, ?_⟩
      · simpa [resultNames] using hnames
      · simpa [withPairs, hcs] using ⟨hs, hstored⟩

/-- The recorded file is sorted and has each candidate pair of the packages once. -/
def Exact (fmt : CandidateFormat σ) (codes : Codes) (s : ResultStore)
    (results : List (Option PackageResult)) (packages : List (List (CandidatePair σ)))
    (runId : RunId) : Prop :=
  ∃ s' name cs, aggregateComparisons fmt codes (some results) runId s = (s', .ok ()) ∧
    s'.similarityScores = s.similarityScores ++ [(runId, name)] ∧ Stored fmt s' name cs ∧
    Sorted cs ∧ cs.Nodup ∧ ∀ c, c ∈ cs ↔ ∃ p ∈ packages, c ∈ p

/-- A run without candidate pairs records an empty file. -/
theorem aggregateComparisons_empty (fmt : CandidateFormat σ) (codes : Codes) (s : ResultStore)
    {results : List (Option PackageResult)}
    (hfiles : resultFiles results = .ok []) (runId : RunId) :
    ∃ s' name, aggregateComparisons fmt codes (some results) runId s = (s', .ok ()) ∧
      s'.similarityScores = s.similarityScores ++ [(runId, name)] ∧ Stored fmt s' name [] := by
  refine ⟨⟨s.objects.set (codes.filename s.codes) (fmt.dump []),
    s.similarityScores ++ [(runId, codes.filename s.codes)], s.codes + 1⟩,
    codes.filename s.codes, ?_, rfl, Dict.get?_set_self _ _ _⟩
  simp [aggregateComparisons, orRaise, hfiles, mergeHeap, putPlaceholderEmptyFile,
    generateFilename, putObject, Action.bind_apply]

/-- A run with candidate pairs records the file that the loop leaves. -/
theorem aggregateComparisons_files {s s' : ResultStore} {results : List (Option PackageResult)}
    {files : List ResultFile} {last : ResultFile} (hfiles : resultFiles results = .ok files)
    (hheap : mergeHeap fmt codes (files.insertionSort ResultFile.le) s = (s', .ok [last]))
    (runId : RunId) :
    aggregateComparisons fmt codes (some results) runId s =
      ({ s' with similarityScores := s'.similarityScores ++ [(runId, last.filename)] },
        .ok ()) := by
  simp [aggregateComparisons, orRaise, hfiles, Action.bind_apply, hheap]

theorem Results.holds {s : ResultStore} {results : List (Option PackageResult)}
    {packages : List (List (CandidatePair σ))} (h : Results fmt codes s results packages)
    {files : List ResultFile} (hnames : files.map ResultFile.filename = resultNames results)
    (hstored : List.Forall₂ (fun f cs => Stored fmt s f.filename cs) files
      (withPairs packages)) : Holds fmt codes s files where
  stored := by
    intro f hf
    obtain ⟨i, hi, rfl⟩ := List.mem_iff_getElem.mp hf
    obtain ⟨hlen, hget⟩ := List.forall₂_iff_get.mp hstored
    have hi' : i < (withPairs packages).length := hlen ▸ hi
    have hmem := mem_withPairs.mp (List.getElem_mem hi')
    exact ⟨_, hget i hi hi', h.sorted _ hmem.1⟩
  distinct := hnames ▸ h.distinct
  fresh := by
    intro n _ hm
    rw [List.mem_map] at hm
    obtain ⟨f, hf, he⟩ := hm
    obtain ⟨i, hi, rfl⟩ := List.mem_iff_getElem.mp hf
    obtain ⟨hlen, hget⟩ := List.forall₂_iff_get.mp hstored
    have hs := hget i hi (hlen ▸ hi)
    exact h.fresh n (he ▸ Dict.mem_keys_of_get? hs)

theorem entry_iff {s : ResultStore} {files : List ResultFile}
    {packages : List (List (CandidatePair σ))}
    (hstored : List.Forall₂ (fun f cs => Stored fmt s f.filename cs) files
      (withPairs packages)) (c : CandidatePair σ) :
    Entry fmt s files c ↔ ∃ p ∈ packages, c ∈ p := by
  have hfilter : (∃ p ∈ packages, c ∈ p) ↔ ∃ p ∈ withPairs packages, c ∈ p := by
    constructor
    · rintro ⟨p, hp, hc⟩
      exact ⟨p, mem_withPairs.mpr ⟨hp, List.ne_nil_of_mem hc⟩, hc⟩
    · rintro ⟨p, hp, hc⟩
      exact ⟨p, (mem_withPairs.mp hp).1, hc⟩
  rw [hfilter]
  unfold Entry
  generalize withPairs packages = kept at hstored
  induction hstored with
  | nil => simp
  | @cons f cs files packages hs _ ih =>
    simp only [List.mem_cons, exists_eq_or_imp, ih]
    constructor
    · rintro (⟨ds, hds, hc⟩ | h)
      · exact Or.inl ((hs.unique fmt hds) ▸ hc)
      · exact Or.inr h
    · rintro (hc | h)
      · exact Or.inl ⟨cs, hs, hc⟩
      · exact Or.inr h

/-- The recorded file is sorted and has the candidate pairs of the packages. It repeats one
only when it is the unmerged file of a single package. -/
theorem aggregateComparisons_ok {s : ResultStore} {results : List (Option PackageResult)}
    {packages : List (List (CandidatePair σ))} (h : Results fmt codes s results packages)
    (runId : RunId) :
    ∃ s' name cs, aggregateComparisons fmt codes (some results) runId s = (s', .ok ()) ∧
      s'.similarityScores = s.similarityScores ++ [(runId, name)] ∧ Stored fmt s' name cs ∧
      Sorted cs ∧ (∀ c, c ∈ cs ↔ ∃ p ∈ packages, c ∈ p) ∧
      (cs.Nodup ↔ ∀ p, withPairs packages = [p] → p.Nodup) := by
  obtain ⟨files, hfiles, hnames, hstored⟩ := resultFiles_ok h.returned
  have hholds := h.holds hnames hstored
  have hentry := entry_iff hstored
  have hperm := List.perm_insertionSort ResultFile.le files
  cases hsort : files.insertionSort ResultFile.le with
  | nil =>
    rw [hsort] at hperm
    obtain rfl := hperm.nil_eq
    obtain ⟨s', name, hagg, hrec, hs⟩ := aggregateComparisons_empty fmt codes s hfiles runId
    refine ⟨s', name, [], hagg, hrec, hs, List.Pairwise.nil, ?_, ?_⟩
    · intro c
      rw [← hentry]
      simp [Entry]
    · have hnone := List.forall₂_nil_left_iff.mp hstored
      simp [hnone]
  | cons file rest =>
    rw [hsort] at hperm
    have hholds' := hholds.perm hperm.symm
    have hlen : (withPairs packages).length = rest.length + 1 := by
      rw [← hstored.length_eq, hperm.symm.length_eq, List.length_cons]
    obtain ⟨p, ps, hp⟩ := List.exists_cons_of_length_eq_add_one hlen
    rcases rest with _ | ⟨g, rest⟩
    · -- a single file is recorded as its package left it
      obtain rfl : ps = [] := List.length_eq_zero_iff.mp (by simpa [hp] using hlen)
      obtain rfl := List.perm_singleton.mp hperm.symm
      have hs : Stored fmt s file.filename p := by
        rw [hp] at hstored
        cases hstored with
        | cons hs _ => exact hs
      have hheap : mergeHeap fmt codes (List.insertionSort ResultFile.le [file]) s =
          (s, .ok [file]) := by
        simp [mergeHeap]
      have hmem : p ∈ packages := (mem_withPairs.mp (hp ▸ List.mem_cons_self)).1
      refine ⟨_, file.filename, p, aggregateComparisons_files hfiles hheap runId, rfl, hs,
        h.sorted p hmem, ?_, ?_⟩
      · intro c
        rw [← hentry]
        simp only [Entry, List.mem_singleton, exists_eq_left]
        constructor
        · exact fun hc => ⟨p, hs, hc⟩
        · rintro ⟨q, hq, hc⟩
          exact (hs.unique fmt hq) ▸ hc
      · simp [hp]
    · have hne : ps ≠ [] := by
        rintro rfl
        simp [hp] at hlen
      obtain ⟨s', last, hheap, hlast, hlastu, hlaste, hlasts⟩ :=
        mergeHeap_ok hholds' (fun he => absurd he (List.cons_ne_nil g rest))
      rw [← hsort] at hheap
      obtain ⟨cs, hcs, hsorted⟩ := hlast.stored last List.mem_cons_self
      refine ⟨_, last.filename, cs, aggregateComparisons_files hfiles hheap runId,
        congrArg (· ++ _) hlasts, hcs, hsorted, ?_, ?_⟩
      · intro c
        rw [← hentry, entry_perm hperm.symm, ← hlaste]
        simp only [Entry, List.mem_singleton, exists_eq_left]
        constructor
        · exact fun hc => ⟨cs, hcs, hc⟩
        · rintro ⟨ds, hds, hc⟩
          exact (hcs.unique fmt hds) ▸ hc
      · refine ⟨fun _ q hq => ?_, fun _ => hlastu last List.mem_cons_self cs hcs⟩
        rw [hp] at hq
        exact absurd (List.cons_eq_cons.mp hq).2 hne

/-- A recorded file that has each candidate pair once leaves no repetition to a single package. -/
theorem Exact.nodup {s : ResultStore} {results : List (Option PackageResult)}
    {packages : List (List (CandidatePair σ))} {runId : RunId}
    (he : Exact fmt codes s results packages runId) (h : Results fmt codes s results packages) :
    ∀ p, withPairs packages = [p] → p.Nodup := by
  obtain ⟨s', name, cs, hagg, hrec, hs, -, -, hnodup⟩ := aggregateComparisons_ok h runId
  obtain ⟨s'', name', ds, hagg', hrec', hs', -, hds, -⟩ := he
  obtain ⟨rfl, -⟩ := Prod.mk.inj (hagg.symm.trans hagg')
  have hlast := List.append_cancel_left (hrec.symm.trans hrec')
  obtain rfl : name = name' := by simpa using hlast
  exact hnodup.mp ((hs.unique fmt hs') ▸ hds)

/-- The recorded file has each candidate pair once except when a single package has pairs
and repeats one of them: that package's file is then never merged. -/
theorem aggregateComparisons_exact_iff {s : ResultStore} {results : List (Option PackageResult)}
    {packages : List (List (CandidatePair σ))} (h : Results fmt codes s results packages)
    (runId : RunId) :
    Exact fmt codes s results packages runId ↔
      ∀ p, withPairs packages = [p] → p.Nodup := by
  constructor
  · exact fun he => he.nodup h
  · intro hn
    obtain ⟨s', name, cs, hagg, hrec, hs, hsorted, hmem, hnodup⟩ := aggregateComparisons_ok h runId
    exact ⟨s', name, cs, hagg, hrec, hs, hsorted, hnodup.mpr hn, hmem⟩

end Merging

/-- The bits of a double that is not negative. They are ordered as the number is. -/
abbrev DoubleBits := Fin (2 ^ 64)

/-- The six 32-bit words of an entry. -/
def words (c : CandidatePair DoubleBits) : List ℕ :=
  [c.sim.val / 2 ^ 32, c.sim.val % 2 ^ 32, c.dsetI0.toNat, c.dsetI1.toNat, c.recI0.toNat,
    c.recI1.toNat]

def packEntry (c : CandidatePair DoubleBits) : Bytes := ((words c).map packUInt32).flatten

def unpackEntry (data : Bytes) : CandidatePair DoubleBits :=
  let word := fun i => fromBytes ((data.drop (i * 4)).take 4)
  ⟨Fin.ofNat _ (word 0 * 2 ^ 32 + word 1), .ofNat (word 2), .ofNat (word 3), .ofNat (word 4),
    .ofNat (word 5)⟩

theorem length_packEntry (c : CandidatePair DoubleBits) : (packEntry c).length = 24 := rfl

theorem unpackEntry_packEntry (c : CandidatePair DoubleBits) : unpackEntry (packEntry c) = c := by
  have hlen : ∀ l ∈ (words c).map packUInt32, l.length = 4 := by
    intro l hl
    obtain ⟨n, -, rfl⟩ := List.mem_map.mp hl
    rfl
  have hsim := c.sim.isLt
  have hword : ∀ i (hi : i < 6), fromBytes (((packEntry c).drop (i * 4)).take 4) =
      (words c).get ⟨i, hi⟩ := by
    intro i hi
    have hlt : ∀ n ∈ words c, n < 2 ^ 32 := by
      intro n hn
      simp only [words, List.mem_cons, List.not_mem_nil, or_false] at hn
      rcases hn with rfl | rfl | rfl | rfl | rfl | rfl
      · omega
      · omega
      all_goals exact UInt32.toNat_lt _
    have hi' : i < (words c).length := hi
    rw [packEntry, take_drop_flatten hlen, List.getElem?_map, List.getElem?_eq_getElem hi',
      Option.map_some, Option.getD_some, fromBytes_packUInt32 (hlt _ (List.getElem_mem hi'))]
    rfl
  unfold unpackEntry
  simp only [hword 0 (by omega), hword 1 (by omega), hword 2 (by omega), hword 3 (by omega),
    hword 4 (by omega), hword 5 (by omega)]
  obtain ⟨sim, d0, d1, r0, r1⟩ := c
  have hdiv : sim.val / 2 ^ 32 * 2 ^ 32 + sim.val % 2 ^ 32 = sim.val := by omega
  have hfin : Fin.ofNat (2 ^ 64) (sim.val / 2 ^ 32 * 2 ^ 32 + sim.val % 2 ^ 32) = sim := by
    rw [hdiv, Fin.ofNat_val_eq_self]
  simp only [words, List.get_eq_getElem, List.getElem_cons_zero, List.getElem_cons_succ, hfin,
    UInt32.ofNat_toNat]

def doubleHeader : Bytes := [0, 8, 4, 4]

/-- The entries of 24 bytes after the header. -/
def loadEntries (data : Bytes) : List (CandidatePair DoubleBits) :=
  (List.range ((data.length - 4) / 24)).map fun i =>
    unpackEntry (((data.drop 4).drop (i * 24)).take 24)

theorem loadEntries_dump (cs : List (CandidatePair DoubleBits)) :
    loadEntries (doubleHeader ++ (cs.map packEntry).flatten) = cs := by
  have hlen : ∀ l ∈ cs.map packEntry, l.length = 24 := by
    intro l hl
    obtain ⟨c, -, rfl⟩ := List.mem_map.mp hl
    exact length_packEntry c
  have hn : (doubleHeader ++ (cs.map packEntry).flatten).length = 4 + cs.length * 24 := by
    rw [List.length_append, length_flatten_of_length hlen, List.length_map]
    rfl
  have hdiv : (4 + cs.length * 24 - 4) / 24 = cs.length := by omega
  unfold loadEntries
  rw [hn, hdiv]
  refine List.ext_getElem (by simp) fun i hi hi' => ?_
  rw [List.getElem_map, List.getElem_range]
  change unpackEntry (((cs.map packEntry).flatten.drop (i * 24)).take 24) = cs[i]
  rw [take_drop_flatten hlen, List.getElem?_map, List.getElem?_eq_getElem hi']
  exact unpackEntry_packEntry _

/-- A file format for doubles with entries of 24 bytes. -/
def doubleFormat : CandidateFormat DoubleBits where
  header := doubleHeader
  entry := packEntry
  entry_ne_header c h := by
    have hlen := congrArg List.length h
    rw [length_packEntry] at hlen
    exact absurd hlen (by decide)
  load data := .ok (loadEntries data)
  load_dump cs := congrArg Except.ok (loadEntries_dump cs)
  dumpSize cs := 4 + cs.length * 24
  mergeStreamsIter streams sizes := .ok (doubleHeader ::
    ((streams.flatMap loadEntries).insertionSort CandidatePair.Before).map packEntry, sizes.sum)
  mergeStreamsIter_dump files sizes _ := by
    have hload : (files.map fun cs => doubleHeader ++ (cs.map packEntry).flatten).flatMap
        loadEntries = files.flatten := by
      rw [List.flatMap_map]
      simp only [loadEntries_dump, List.flatMap_id']
    refine ⟨files.flatten.insertionSort CandidatePair.Before, sizes.sum, ?_, ?_, by rw [hload]⟩
    · exact List.pairwise_insertionSort CandidatePair.Before files.flatten
    · exact List.perm_insertionSort CandidatePair.Before files.flatten

/-- Hexadecimal texts, the first of 24 characters. -/
def longCodes : Codes where
  generateCode n := String.ofList (List.replicate (24 + n) 'a')
  injective m n h := by
    have hlen := congrArg (fun s => s.toList.length) h
    simpa using hlen

theorem length_filename_longCodes (n : ℕ) : 46 ≤ (longCodes.filename n).toList.length := by
  have hcode : (longCodes.generateCode n).toList.length = 24 + n := by simp [longCodes]
  have hdir : "similarity-scores/".toList.length = 18 := by decide
  have hext : ".bin".toList.length = 4 := by decide
  unfold Codes.filename SIMILARITY_SCORES_FILENAME_FMT
  rw [String.toList_append, String.toList_append, List.length_append, List.length_append, hcode,
    hdir, hext]
  omega

theorem filename_longCodes_not_mem {names : List FileName}
    (h : ∀ name ∈ names, name.toList.length < 46) (n : ℕ) : longCodes.filename n ∉ names := by
  intro hn
  have hshort := h _ hn
  have hlong := length_filename_longCodes n
  omega

/-- A similarity of 0.9 between record 5 of the first dataset and record 7 of the second. -/
def samplePair : CandidatePair DoubleBits := ⟨0x3FECCCCCCCCCCCCD, 0, 1, 5, 7⟩

/-- The store after the comparisons of two packages, each with one candidate pair. -/
def twoFiles : ResultStore where
  objects := ⟨[("similarity-scores/b.bin", doubleFormat.dump [samplePair]),
    ("similarity-scores/c.bin", doubleFormat.dump [samplePair])], by decide⟩
  similarityScores := []
  codes := 0

theorem results_twoFiles : Results doubleFormat longCodes twoFiles
    [some (1, some 28, some "similarity-scores/b.bin"),
      some (1, some 28, some "similarity-scores/c.bin")] [[samplePair], [samplePair]] where
  returned := by
    have hb : Stored doubleFormat twoFiles "similarity-scores/b.bin" [samplePair] :=
      Dict.get?_eq_some.mpr (by simp [twoFiles])
    have hc : Stored doubleFormat twoFiles "similarity-scores/c.bin" [samplePair] :=
      Dict.get?_eq_some.mpr (by simp [twoFiles])
    have hne := List.cons_ne_nil samplePair []
    exact .cons (.file hne hb) (.cons (.file hne hc) .nil)
  sorted cs hcs := by
    obtain rfl : cs = [samplePair] := by simpa using hcs
    exact List.pairwise_singleton _ _
  distinct := by decide
  fresh := filename_longCodes_not_mem (by decide)

theorem aggregateComparisons_exact_twoFiles :
    Exact doubleFormat longCodes twoFiles [some (1, some 28, some "similarity-scores/b.bin"),
      some (1, some 28, some "similarity-scores/c.bin")] [[samplePair], [samplePair]] "run" :=
  (aggregateComparisons_exact_iff results_twoFiles "run").mpr (by simp [withPairs])

/-- The store after one package with two blocks that share a candidate pair. -/
def oneFile : ResultStore where
  objects := ⟨[("similarity-scores/b.bin", doubleFormat.dump [samplePair, samplePair])], by decide⟩
  similarityScores := []
  codes := 0

theorem results_oneFile : Results doubleFormat longCodes oneFile
    [some (2, some 52, some "similarity-scores/b.bin")] [[samplePair, samplePair]] where
  returned := by
    have hb : Stored doubleFormat oneFile "similarity-scores/b.bin" [samplePair, samplePair] :=
      Dict.get?_eq_some.mpr (by simp [oneFile])
    exact .cons (.file (List.cons_ne_nil samplePair [samplePair]) hb) .nil
  sorted cs hcs := by
    obtain rfl : cs = [samplePair, samplePair] := by simpa using hcs
    exact List.pairwise_pair.mpr (le_refl samplePair.key)
  distinct := by decide
  fresh := filename_longCodes_not_mem (by decide)

theorem not_exact_oneFile :
    Results doubleFormat longCodes oneFile [some (2, some 52, some "similarity-scores/b.bin")]
        [[samplePair, samplePair]] ∧
      ¬ Exact doubleFormat longCodes oneFile [some (2, some 52, some "similarity-scores/b.bin")]
        [[samplePair, samplePair]] "run" := by
  refine ⟨results_oneFile, fun he => ?_⟩
  have hnodup := he.nodup results_oneFile [samplePair, samplePair] rfl
  simp at hnodup

end EntityService.Tasks.Aggregation
