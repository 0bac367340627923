import EntityService.Views.AuthChecks
import EntityService.Views.Inline

/-! Uploads to the object store: the policy issued to a data provider, and the paths that an
upload of the provider may name. -/
namespace EntityService.Views
open Lib

/-- A resource of a policy: the object at a path of a bucket, or every object below it. -/
inductive Resource
  | object (bucketName : String) (path : List Char)
  | below (bucketName : String) (path : List Char)
deriving DecidableEq, Repr

def Resource.Covers : Resource → ExternalFile → Prop
  | .object bucketName path, file => file = ⟨bucketName, path⟩
  | .below bucketName path, file => file.bucket = bucketName ∧ path ++ ['/'] <+: file.path

/-- The resources that the policy allows to put. -/
def getUploadPolicy (bucketName : String) (path : List Char) : List Resource :=
  [.object bucketName path, .below bucketName path]

structure ExternalUpload where
  policy : List Resource
  bucket : String
  path : List Char
deriving DecidableEq, Repr

structure UploadObjectStore where
  enabled : Bool
  bucket : String

/-- Issue a policy to the data provider with the update token. -/
def authorizeExternalUpload (config : UploadObjectStore) (db : Database) (projectId : ProjectId)
    (authorization : Option Token) : Except Error ExternalUpload := do
  ensure config.enabled
    (.problem 500 "Retrieving temporary object store credentials feature disabled")
  let dpId ← uploadProvider db projectId authorization
  let path := objectStoreUploadPath projectId dpId
  return ⟨getUploadPolicy config.bucket path, config.bucket, path⟩

/-- A data provider's policy allows it to write to a path of the upload bucket. -/
def UploadAllowed (bucketName : String) (projectId : ProjectId) (dpId : DpId)
    (path : List Char) : Prop :=
  ∃ resource ∈ getUploadPolicy bucketName (objectStoreUploadPath projectId dpId),
    resource.Covers ⟨bucketName, path⟩

/-- The upload gives its encodings or its blocks as the file at a path. -/
def ClkJson.NamesPath (clkJson : ClkJson) (path : List Char) : Prop :=
  clkJson.encodings.isSome ∧
    ((∃ file, clkJson.encodings = some (.external file) ∧ file.path = path) ∨
      ∃ file, clkJson.blocks = some (.external file) ∧ file.path = path)

theorem uploadAllowed_iff {bucketName : String} {projectId : ProjectId} {dpId : DpId}
    {path : List Char} : UploadAllowed bucketName projectId dpId path ↔
      path = objectStoreUploadPath projectId dpId ∨
        ∃ rest, path = objectStoreUploadPath projectId dpId ++ '/' :: rest := by
  unfold UploadAllowed getUploadPolicy
  simp only [List.mem_cons, List.not_mem_nil, or_false, exists_eq_or_imp, exists_eq_left,
    Resource.Covers, ExternalFile.mk.injEq, true_and]
  refine or_congr_right ⟨?_, ?_⟩
  · rintro ⟨rest, rfl⟩
    exact ⟨rest, by simp⟩
  · rintro ⟨rest, rfl⟩
    exact ⟨rest, by simp⟩

/-- Whatever the next character after the number of a provider is, the number ends there. -/
theorem decimal_append_slash {m n : ℕ} {u v : List Char}
    (hu : u = [] ∨ ∃ rest, u = '/' :: rest) (hv : v = [] ∨ ∃ rest, v = '/' :: rest)
    (h : decimal m ++ u = decimal n ++ v) : m = n := by
  have hdigits : ∀ (k : ℕ) (w : List Char), w = [] ∨ (∃ rest, w = '/' :: rest) →
      (decimal k ++ w).takeWhile Char.isDigit = decimal k := by
    intro k w hw
    have hall : ∀ c ∈ decimal k, c.isDigit = true := by
      rw [decimal_natCast]
      exact fun c hc => Nat.isDigit_of_mem_toDigits (by decide) (by decide) hc
    rw [List.takeWhile_append_of_pos hall]
    rcases hw with rfl | ⟨rest, rfl⟩
    · simp
    · rw [List.takeWhile_cons_of_neg (by decide), List.append_nil]
  have heq := congrArg (List.takeWhile Char.isDigit) h
  rw [hdigits m u hu, hdigits n v hv] at heq
  exact decimal_natCast_injective heq

/-- Two data providers of a project may not write to one path. -/
theorem UploadAllowed.unique {bucketName : String} {projectId : ProjectId} {d1 d2 : DpId}
    {path : List Char} (h1 : UploadAllowed bucketName projectId d1 path)
    (h2 : UploadAllowed bucketName projectId d2 path) : d1 = d2 := by
  have hrest : ∀ {dpId : DpId}, UploadAllowed bucketName projectId dpId path →
      ∃ u, (u = [] ∨ ∃ rest, u = '/' :: rest) ∧
        path = projectId.toList ++ '/' :: (decimal dpId ++ u) := by
    intro dpId h
    rcases uploadAllowed_iff.mp h with h | ⟨rest, h⟩
    · exact ⟨[], .inl rfl, by simp [h, objectStoreUploadPath]⟩
    · exact ⟨'/' :: rest, .inr ⟨rest, rfl⟩, by simp [h, objectStoreUploadPath]⟩
  obtain ⟨u, hu, heq1⟩ := hrest h1
  obtain ⟨v, hv, heq2⟩ := hrest h2
  have heq := List.append_cancel_left (heq1.symm.trans heq2)
  exact decimal_append_slash hu hv (List.cons.inj heq).2

theorem checkObjectPathAllowed_eq_ok {projectId : ProjectId} {dpId : DpId} {path : List Char} :
    checkObjectPathAllowed projectId dpId path = .ok () ↔
      objectStoreUploadPath projectId dpId <+: path := by
  rw [checkObjectPathAllowed, ensure_eq_ok, List.isPrefixOf_iff_prefix]

theorem externalUpload_checked {projectId : ProjectId} {dpId : DpId} {encodings : Encodings}
    {blocks : Option Blocks} {job : Job}
    (h : externalUpload projectId dpId encodings blocks = .ok job) :
    (∀ file, encodings = .external file →
      objectStoreUploadPath projectId dpId <+: file.path) ∧
    ∀ file, blocks = some (.external file) →
      objectStoreUploadPath projectId dpId <+: file.path := by
  cases blocks with
  | none =>
    simp only [externalUpload, bind_eq_ok] at h
    obtain ⟨file, hfile, _, hcheck, -⟩ := h
    refine ⟨?_, by simp⟩
    rintro file' rfl
    cases hfile
    exact checkObjectPathAllowed_eq_ok.mp hcheck
  | some blocks =>
    simp only [externalUpload, bind_eq_ok] at h
    obtain ⟨file, hfile, _, hcheck, _, -, blocksFile, hblocksFile, _, hblocksCheck, -⟩ := h
    constructor
    · rintro file' rfl
      cases hfile
      exact checkObjectPathAllowed_eq_ok.mp hcheck
    · intro file' hfile'
      cases hfile'
      cases hblocksFile
      exact checkObjectPathAllowed_eq_ok.mp hblocksCheck

/-- A policy is issued to the data provider that the token belongs to. -/
theorem authorizeExternalUpload_eq_ok {config : UploadObjectStore} {db : Database}
    {projectId : ProjectId} {authorization : Option Token} {upload : ExternalUpload} :
    authorizeExternalUpload config db projectId authorization = .ok upload ↔
      config.enabled ∧ ∃ dpId, uploadProvider db projectId authorization = .ok dpId ∧
        upload = ⟨getUploadPolicy config.bucket (objectStoreUploadPath projectId dpId),
          config.bucket, objectStoreUploadPath projectId dpId⟩ := by
  unfold authorizeExternalUpload
  simp only [bind_eq_ok, ensure_eq_ok, pure_eq_ok, Except.ok.injEq, exists_const]
  exact and_congr_right fun _ => exists_congr fun dpId => and_congr_right fun _ => eq_comm

section Accepted
variable {settings : Settings} {projectId : ProjectId} {dpId : DpId} {clkJson : ClkJson}
  {receiptToken : Token} {usesBlocking : Bool} {w w' : World} {job : Job} {path : List Char}

/-- The paths that an accepted upload names start with the provider's path. -/
theorem handleEncodingUploadJson_checked (hpath : clkJson.NamesPath path)
    (h : handleEncodingUploadJson settings projectId dpId clkJson receiptToken usesBlocking w =
      (w', .ok job)) : objectStoreUploadPath projectId dpId <+: path := by
  obtain ⟨hsome, hnames⟩ := hpath
  obtain ⟨encodings, hencodings⟩ := Option.isSome_iff_exists.mp hsome
  cases hexternal : clkJson.externalEncodings with
  | some encodings' =>
    have heq : encodings' = encodings := by
      have hfilter := Option.filter_eq_some_iff.mp hexternal
      exact Option.some.inj (hfilter.1.symm.trans hencodings)
    subst heq
    rw [handleEncodingUploadJson_of_ok (handleEncodingUploadJson_inconsistent h), hexternal] at h
    obtain ⟨hencodingsFile, hblocksFile⟩ := externalUpload_checked (congrArg Prod.snd h)
    rcases hnames with ⟨file, hfile, rfl⟩ | ⟨file, hfile, rfl⟩
    · exact hencodingsFile file (Option.some.inj (hencodings.symm.trans hfile))
    · exact hblocksFile file hfile
  | none =>
    -- Encodings inside the document do not go with blocks in a file.
    obtain ⟨-, entries, hentries, -⟩ := (handleEncodingUploadJson_inline hexternal).mp h
    exfalso
    unfold inlineEntries at hentries
    rw [hencodings] at hentries
    cases encodings with
    | external file => cases hentries
    | array encodings =>
      rcases hnames with ⟨file, hfile, -⟩ | ⟨file, hfile, -⟩
      · rw [hencodings] at hfile
        cases hfile
      · simp only [hfile, convertEncodingUploadToClknblock, error_bind] at hentries
        cases hentries

/-- An upload of nothing but encodings in a file that the provider may name is accepted. -/
theorem handleEncodingUploadJson_external (bucketName : String)
    (hpath : objectStoreUploadPath projectId dpId <+: path) :
    handleEncodingUploadJson settings projectId dpId
      ⟨none, none, some (.external ⟨bucketName, path⟩), none⟩ receiptToken false w =
        (w, .ok (.pullExternalDataEncodingsOnly ⟨bucketName, path⟩)) := by
  have hcheck := checkObjectPathAllowed_eq_ok.mpr hpath
  have hexternal : externalUpload projectId dpId (.external ⟨bucketName, path⟩) none =
      .ok (.pullExternalDataEncodingsOnly ⟨bucketName, path⟩) := by
    simp only [externalUpload, Encodings.file, ok_bind, hcheck, pure_eq_ok]
  rw [handleEncodingUploadJson_of_ok rfl]
  change Action.lift (externalUpload projectId dpId (.external ⟨bucketName, path⟩) none) w = _
  rw [hexternal, Action.lift_apply]

end Accepted

/-- An upload of a provider that names the path is refused when the path is another provider's,
and it is accepted only when the provider's own policy allows the path. -/
structure PathIsolated (settings : Settings) (bucketName : String) (projectId : ProjectId)
    (dpId : DpId) (path : List Char) : Prop where
  rejects : ∀ d2, d2 ≠ dpId → UploadAllowed bucketName projectId d2 path →
    ∀ clkJson receiptToken usesBlocking w, ClkJson.NamesPath clkJson path →
      ∃ w' e, handleEncodingUploadJson settings projectId dpId clkJson receiptToken usesBlocking w =
        (w', .error e)
  within : ∀ clkJson receiptToken usesBlocking w w' job,
    ClkJson.NamesPath clkJson path →
      handleEncodingUploadJson settings projectId dpId clkJson receiptToken usesBlocking w =
        (w', .ok job) → UploadAllowed bucketName projectId dpId path

/-- Uploads are isolated on all paths but those on which more than a slash follows the
number of the provider. -/
theorem pathIsolated_iff (settings : Settings) (bucketName : String) (projectId : ProjectId)
    (dpId : DpId) (path : List Char) : PathIsolated settings bucketName projectId dpId path ↔
      ¬ ∃ c rest, c ≠ '/' ∧ path = objectStoreUploadPath projectId dpId ++ c :: rest := by
  constructor
  · rintro h ⟨c, rest, hc, rfl⟩
    have hallowed := h.within
      ⟨none, none, some (.external ⟨bucketName, _⟩), none⟩ "" false
      ⟨twoProjects, Dict.empty, Dict.empty⟩ _ _ ⟨rfl, .inl ⟨_, rfl, rfl⟩⟩
      (handleEncodingUploadJson_external bucketName (List.prefix_append _ _))
    rcases uploadAllowed_iff.mp hallowed with hpath | ⟨rest', hpath⟩
    · simp at hpath
    · have htail := List.append_cancel_left hpath
      exact hc (List.cons.inj htail).1
  · intro h
    have hwithin : objectStoreUploadPath projectId dpId <+: path →
        UploadAllowed bucketName projectId dpId path := by
      rintro ⟨rest, rfl⟩
      cases rest with
      | nil => exact uploadAllowed_iff.mpr (.inl (List.append_nil _))
      | cons c rest =>
        by_cases hc : c = '/'
        · subst hc
          exact uploadAllowed_iff.mpr (.inr ⟨rest, rfl⟩)
        · exact absurd ⟨c, rest, hc, rfl⟩ h
    refine ⟨fun d2 hne h2 clkJson receiptToken usesBlocking w hnames => ?_,
      fun clkJson receiptToken usesBlocking w w' job hnames hok =>
        hwithin (handleEncodingUploadJson_checked hnames hok)⟩
    rcases hrun : handleEncodingUploadJson settings projectId dpId clkJson receiptToken
      usesBlocking w with ⟨w', e | job⟩
    · exact ⟨w', e, rfl⟩
    · have hown := hwithin (handleEncodingUploadJson_checked hnames hrun)
      exact absurd (h2.unique hown) hne

/-- The file of the twelfth provider is accepted from the first. -/
theorem not_pathIsolated_prefix : UploadAllowed "uploads" "p" 12 "p/12".toList ∧
    ¬ PathIsolated Tasks.defaultSettings "uploads" "p" 1 "p/12".toList := by
  have h12 : UploadAllowed "uploads" "p" 12 "p/12".toList :=
    uploadAllowed_iff.mpr (.inl (by decide))
  refine ⟨h12, fun h => ?_⟩
  have hown := h.within
    ⟨none, none, some (.external ⟨"uploads", "p/12".toList⟩), none⟩ "" false
    ⟨twoProjects, Dict.empty, Dict.empty⟩ _ _ ⟨rfl, .inl ⟨_, rfl, rfl⟩⟩
    (handleEncodingUploadJson_external "uploads" (by decide))
  exact absurd (h12.unique hown) (by decide)

end EntityService.Views
