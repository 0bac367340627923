import EntityService.Database.Tables
import EntityService.Tasks.Deduplication
import EntityService.World

/-! The names under which the service stores its objects. They are shorter than the columns that
refer to them, so a column returns none of them as it was. -/
namespace EntityService.Tasks.Aggregation
open Lib

def hexDigits (b : UInt8) : List Char :=
  [Nat.digitChar (b.toNat / 16), Nat.digitChar (b.toNat % 16)]

def hexlify (data : Bytes) : String := String.ofList (data.flatMap hexDigits)

theorem length_hexlify (data : Bytes) : (hexlify data).toList.length = 2 * data.length := by
  rw [hexlify, String.toList_ofList]
  induction data with
  | nil => rfl
  | cons b data ih =>
    rw [List.flatMap_cons, List.length_append, ih]
    simp only [hexDigits, List.length_cons, List.length_nil]
    omega

/-- The first codes are those of `generate_code(12)`: the texts of 12 random bytes. -/
def Codes.Drawn (codes : Codes) (drawn : ℕ) : Prop :=
  ∀ n < drawn, ∃ data : Bytes, data.length = 12 ∧ codes.generateCode n = hexlify data

theorem length_scoresFilename {data : Bytes} (h : data.length = 12) :
    (SIMILARITY_SCORES_FILENAME_FMT (hexlify data)).toList.length = 46 := by
  have hcode : (hexlify data).toList.length = 24 := by rw [length_hexlify, h]
  have hdir : "similarity-scores/".toList.length = 18 := by decide
  have hext : ".bin".toList.length = 4 := by decide
  unfold SIMILARITY_SCORES_FILENAME_FMT
  rw [String.toList_append, String.toList_append, List.length_append, List.length_append, hcode,
    hdir, hext]

theorem Codes.Drawn.length_filename {codes : Codes} {drawn n : ℕ} (h : codes.Drawn drawn)
    (hn : n < drawn) : (codes.filename n).toList.length = 46 := by
  obtain ⟨data, hdata, hcode⟩ := h n hn
  unfold Codes.filename
  rw [hcode]
  exact length_scoresFilename hdata

/-- The length of the name of a raw upload, whose receipt token is made of 24 bytes. -/
theorem length_rawFilename {data : Bytes} (h : data.length = 24) :
    (RAW_FILENAME_FMT (hexlify data)).toList.length = 63 := by
  have hcode : (hexlify data).toList.length = 48 := by rw [length_hexlify, h]
  have hdir : "quarantine/".toList.length = 11 := by decide
  have hext : ".txt".toList.length = 4 := by decide
  unfold RAW_FILENAME_FMT
  rw [String.toList_append, String.toList_append, List.length_append, List.length_append, hcode,
    hdir, hext]

theorem le_length_charPad (n : ℕ) (s : List Char) : n ≤ (charPad n s).length := by
  unfold charPad
  rw [List.length_append, List.length_replicate]
  omega

/-- A column returns a name that is too short for it as another name. -/
theorem charPad_ne {name : FileName} {n : ℕ} (h : name.toList.length < n) :
    String.ofList (charPad n name.toList) ≠ name := by
  intro he
  have hlength := le_length_charPad n name.toList
  rw [← String.toList_ofList (l := charPad n name.toList), he] at hlength
  omega

/-- The name of an object of the bucket: of a raw upload, by its receipt token, or of a file of
scores. -/
inductive ObjectName : FileName → Prop
  | raw {data : Bytes} (h : data.length = 24) : ObjectName (RAW_FILENAME_FMT (hexlify data))
  | scores {data : Bytes} (h : data.length = 12) :
    ObjectName (SIMILARITY_SCORES_FILENAME_FMT (hexlify data))

theorem ObjectName.length_lt {name : FileName} (h : ObjectName name) :
    name.toList.length < 64 := by
  cases h with
  | raw h =>
    have hlength := length_rawFilename h
    omega
  | scores h =>
    have hlength := length_scoresFilename h
    omega

section Recorded
variable {σ : Type} [LinearOrder σ] {fmt : CandidateFormat σ} {codes : Codes}
  {s s' : ResultStore}

def Generated (codes : Codes) (drawn : ℕ) (names : List FileName) : Prop :=
  ∀ name ∈ names, ∃ n < drawn, name = codes.filename n

theorem Generated.mono {drawn drawn' : ℕ} {names : List FileName} (h : Generated codes drawn names)
    (hle : drawn ≤ drawn') : Generated codes drawn' names := by
  intro name hname
  obtain ⟨n, hn, he⟩ := h name hname
  exact ⟨n, by omega, he⟩

theorem mergeFiles_filename {f g merged : ResultFile}
    (h : mergeFiles fmt codes f g s = (s', .ok merged)) :
    s'.codes = s.codes + 1 ∧ merged.filename = codes.filename s.codes := by
  unfold mergeFiles at h
  obtain ⟨s₁, _, hget₁, h⟩ := Action.bind_eq_ok.mp h
  obtain ⟨s₂, _, hget₂, h⟩ := Action.bind_eq_ok.mp h
  obtain ⟨s₃, _, hlift, h⟩ := Action.bind_eq_ok.mp h
  obtain ⟨s₄, name, hname, h⟩ := Action.bind_eq_ok.mp h
  obtain ⟨s₅, _, hunique, h⟩ := Action.bind_eq_ok.mp h
  obtain ⟨s₆, _, hput, h⟩ := Action.bind_eq_ok.mp h
  obtain ⟨s₇, _, hremove, h⟩ := Action.bind_eq_ok.mp h
  have h₁ : s₁ = s := (congrArg Prod.fst hget₁).symm
  have h₂ : s₂ = s₁ := (congrArg Prod.fst hget₂).symm
  have h₃ : s₃ = s₂ := (congrArg Prod.fst hlift).symm
  have h₅ : s₅ = s₄ := (congrArg Prod.fst hunique).symm
  cases h
  cases hname
  cases hput
  cases hremove
  subst h₅ h₃ h₂ h₁
  exact ⟨rfl, rfl⟩

theorem mergeHeap_filenames {files files' : List ResultFile}
    (hfiles : Generated codes s.codes (files.map ResultFile.filename))
    (h : mergeHeap fmt codes files s = (s', .ok files')) :
    s.codes ≤ s'.codes ∧ Generated codes s'.codes (files'.map ResultFile.filename) := by
  induction hn : files.length generalizing s files with
  | zero =>
    obtain rfl := List.length_eq_zero_iff.mp hn
    simp only [mergeHeap] at h
    cases h
    exact ⟨le_rfl, hfiles⟩
  | succ n ih =>
    rcases files with _ | ⟨file0, _ | ⟨file1, files⟩⟩
    · simp at hn
    · simp only [mergeHeap] at h
      cases h
      exact ⟨le_rfl, hfiles⟩
    · rw [mergeHeap] at h
      obtain ⟨s₁, merged, hmerge, h⟩ := Action.bind_eq_ok.mp h
      obtain ⟨hcodes, hname⟩ := mergeFiles_filename hmerge
      have hperm := List.perm_orderedInsert ResultFile.le merged files
      have hgenerated : Generated codes s₁.codes
          ((files.orderedInsert ResultFile.le merged).map ResultFile.filename) := by
        intro name hmem
        rcases List.mem_cons.mp ((hperm.map ResultFile.filename).mem_iff.mp hmem) with rfl | hmem
        · exact ⟨s.codes, by omega, hname⟩
        · exact hfiles.mono (by omega) name
            (List.mem_cons_of_mem _ (List.mem_cons_of_mem _ hmem))
      have hlength : (files.orderedInsert ResultFile.le merged).length = n := by
        rw [hperm.length_eq]
        simpa using hn
      obtain ⟨hle, hleft⟩ := ih hgenerated h hlength
      exact ⟨by omega, hleft⟩

theorem filename_of_resultFile {res : Option PackageResult} {f : ResultFile}
    (h : resultFile res = .ok (some f)) : ∃ num size, res = some (num, size, some f.filename) := by
  obtain ⟨⟨num, size, name⟩, hres, hfile⟩ := bind_eq_ok.mp h
  obtain rfl := orRaise_eq_ok.mp hres
  dsimp only at hfile
  split_ifs at hfile with hnum
  · obtain ⟨filesize, -, hfile⟩ := bind_eq_ok.mp hfile
    obtain ⟨filename, hname, hfile⟩ := bind_eq_ok.mp hfile
    cases hfile
    obtain rfl := orRaise_eq_ok.mp hname
    exact ⟨num, size, rfl⟩
  · obtain ⟨_, -, hfile⟩ := bind_eq_ok.mp hfile
    cases hfile

theorem resultFiles_filenames {drawn : ℕ} {results : List (Option PackageResult)}
    {files : List ResultFile} (hresults : Generated codes drawn (resultNames results))
    (h : resultFiles results = .ok files) :
    Generated codes drawn (files.map ResultFile.filename) := by
  obtain ⟨opts, hopts, h⟩ := bind_eq_ok.mp h
  cases h
  intro name hname
  obtain ⟨f, hf, rfl⟩ := List.mem_map.mp hname
  obtain ⟨res, hres, hfile⟩ := (mapM_mem hopts).1 _ (List.reduceOption_mem_iff.mp hf)
  obtain ⟨num, size, rfl⟩ := filename_of_resultFile hfile
  exact hresults f.filename (List.mem_filterMap.mpr ⟨_, hres, rfl⟩)

/-- The file that is recorded for a run has a name that was generated. -/
theorem aggregateComparisons_filename {results : List (Option PackageResult)} {runId : RunId}
    {name : FileName} (hresults : Generated codes s.codes (resultNames results))
    (h : aggregateComparisons fmt codes (some results) runId s = (s', .ok ()))
    (hrecorded : s'.similarityScores.getLast? = some (runId, name)) :
    ∃ n < s'.codes, name = codes.filename n := by
  obtain ⟨s₁, _, hsome, h⟩ := Action.bind_eq_ok.mp h
  cases hsome
  obtain ⟨s₂, files, hfiles, h⟩ := Action.bind_eq_ok.mp h
  rw [Action.lift_apply, Prod.mk.injEq] at hfiles
  obtain ⟨rfl, hfiles⟩ := hfiles
  obtain ⟨s₃, heap, hheap, h⟩ := Action.bind_eq_ok.mp h
  have hsorted : Generated codes s.codes
      ((files.insertionSort ResultFile.le).map ResultFile.filename) := by
    intro name hname
    rw [((List.perm_insertionSort ResultFile.le files).map ResultFile.filename).mem_iff] at hname
    exact resultFiles_filenames hresults hfiles name hname
  obtain ⟨-, hleft⟩ := mergeHeap_filenames hsorted hheap
  cases heap with
  | nil =>
    obtain ⟨s₄, file, hfile, h⟩ := Action.bind_eq_ok.mp h
    obtain ⟨s₅, generated, hname, hfile⟩ := Action.bind_eq_ok.mp hfile
    obtain ⟨s₆, _, hput, hfile⟩ := Action.bind_eq_ok.mp hfile
    cases h
    cases hfile
    cases hput
    cases hname
    rw [List.getLast?_concat] at hrecorded
    obtain ⟨-, rfl⟩ := Prod.mk.inj (Option.some.inj hrecorded)
    exact ⟨s₃.codes, Nat.lt_succ_self _, rfl⟩
  | cons file files' =>
    cases h
    rw [List.getLast?_concat] at hrecorded
    obtain ⟨-, rfl⟩ := Prod.mk.inj (Option.some.inj hrecorded)
    exact hleft _ List.mem_cons_self

end Recorded
end EntityService.Tasks.Aggregation
