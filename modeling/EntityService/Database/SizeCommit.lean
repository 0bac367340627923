import EntityService.Database.SizeVerdict

/-! The encoding size that a project should commit to, and when the check commits to it. The check
sets the size before it looks at the bounds, and takes a size of zero for a missing one. -/
namespace EntityService
open Lib

/-- A size within the configured bounds, in whole words of 64 bits. -/
def Acceptable (settings : Settings) (size : ℤ) : Prop :=
  settings.minEncodingSize ≤ size ∧ size ≤ settings.maxEncodingSize ∧ 8 ∣ size

instance (settings : Settings) (size : ℤ) : Decidable (Acceptable settings size) :=
  inferInstanceAs (Decidable (_ ∧ _))

namespace Database
variable (settings : Settings) (db : Database) (projectId : ProjectId)

def getProjectEncodingSize : Option ℤ := (db.findProject projectId).bind ProjectRow.encodingSize

def schemaSize : Option ℤ :=
  (db.findProject projectId).bind fun row => row.schemaLength.map fun l => l.tdiv 8

/-- All uploads are of the size. -/
def Agree (size : Option ℤ) : Prop := ∀ r ∈ db.getUploadedEncodingSizes projectId, r.2 = size

/-- The size of the project, else that of its schema, else that of the first upload. -/
def expectedSize : Option ℤ :=
  db.getProjectEncodingSize projectId <|> db.schemaSize projectId <|>
    (db.getUploadedEncodingSizes projectId).head?.bind Prod.snd

/-- All uploads are of the expected size, which is acceptable. -/
def Consistent : Prop :=
  ∃ size, db.expectedSize projectId = some size ∧ db.Agree projectId (some size) ∧
    Acceptable settings size

instance (size : Option ℤ) : Decidable (db.Agree projectId size) :=
  inferInstanceAs (Decidable (∀ r ∈ _, _))

/-- The size that the project has after the check, which sets one if the project has none. -/
def sizeLeft : Option ℤ :=
  db.getProjectEncodingSize projectId <|>
    if db.Agree projectId (db.chosenSize projectId) then db.chosenSize projectId else none

/-- When all uploads are of one size, a project without a size can commit to it, and a size of
zero in the place of a missing one makes no difference. -/
structure CommitSafe : Prop where
  acceptable : ∀ size, db.Agree projectId (some size) →
    db.getProjectEncodingSize projectId = none →
    db.schemaSize projectId = none ∨ db.schemaSize projectId = some size →
    Acceptable settings size
  zeroSchema : ∀ size, db.Agree projectId (some size) →
    db.getProjectEncodingSize projectId = none → db.schemaSize projectId = some 0 → size = 0
  zeroProject : ∀ size, db.Agree projectId (some size) →
    db.getProjectEncodingSize projectId = some 0 → Acceptable settings size → size = 0

variable {settings db projectId}

theorem sizesAccepted_iff : db.SizesAccepted settings projectId ↔
    ∃ size, db.chosenSize projectId = some size ∧ db.Agree projectId (some size) ∧
      Acceptable settings size := by
  unfold SizesAccepted Agree Acceptable
  constructor
  · rintro ⟨hagree, size, hsize, hmin, hmax, hmod⟩
    rw [hsize] at hagree
    exact ⟨size, hsize, hagree, hmin, hmax, Int.dvd_of_emod_eq_zero hmod⟩
  · rintro ⟨size, hsize, hagree, hmin, hmax, hdvd⟩
    rw [hsize]
    exact ⟨hagree, size, rfl, hmin, hmax, Int.emod_eq_zero_of_dvd hdvd⟩

theorem chosenSize_eq_sizeOr : db.chosenSize projectId =
    sizeOr (sizeOr (db.getProjectEncodingSize projectId)
      (db.getProjectEncodingSize projectId <|> db.schemaSize projectId))
        ((db.getUploadedEncodingSizes projectId).head?.bind Prod.snd) := by
  unfold chosenSize getProjectSchemaEncodingSize getProjectEncodingSize schemaSize
  cases db.findProject projectId <;> rfl

section Agreed
variable {size : ℤ}

theorem agree_iff (hne : db.getUploadedEncodingSizes projectId ≠ [])
    (hagree : db.Agree projectId (some size)) (size' : Option ℤ) :
    db.Agree projectId size' ↔ size' = some size := by
  constructor
  · intro hagree'
    obtain ⟨r, hr⟩ := List.exists_mem_of_ne_nil _ hne
    exact (hagree' r hr).symm.trans (hagree r hr)
  · rintro rfl
    exact hagree

theorem head_of_agree (hne : db.getUploadedEncodingSizes projectId ≠ [])
    (hagree : db.Agree projectId (some size)) :
    (db.getUploadedEncodingSizes projectId).head?.bind Prod.snd = some size := by
  have hhead := List.head?_eq_some_head hne
  have hsize := hagree _ (List.head_mem hne)
  rw [hhead]
  exact hsize

/-- The condition for one size that all uploads have. -/
theorem commitSafe_iff_of_agree (hne : db.getUploadedEncodingSizes projectId ≠ [])
    (hagree : db.Agree projectId (some size)) : db.CommitSafe settings projectId ↔
      (db.getProjectEncodingSize projectId = none →
        db.schemaSize projectId = none ∨ db.schemaSize projectId = some size →
        Acceptable settings size) ∧
      (db.getProjectEncodingSize projectId = none → db.schemaSize projectId = some 0 →
        size = 0) ∧
      (db.getProjectEncodingSize projectId = some 0 → Acceptable settings size → size = 0) := by
  constructor
  · rintro ⟨hacceptable, hschema, hproject⟩
    exact ⟨hacceptable size hagree, hschema size hagree, hproject size hagree⟩
  · rintro ⟨hacceptable, hschema, hproject⟩
    constructor
    all_goals
      intro size' hagree'
      obtain rfl := Option.some.inj ((agree_iff hne hagree _).mp hagree')
      assumption

end Agreed
/-- What the check makes of one size that all uploads have: where the chosen size is not the
expected one, a missing size or a size of zero is behind it. -/
theorem commit_iff (project schema : Option ℤ) (size : ℤ) (ok : Prop) :
    ((sizeOr (sizeOr project (project <|> schema)) (some size) = some size ∧ ok ↔
        (project <|> schema <|> some size) = some size ∧ ok) ∧
      ((project <|> schema <|> some size) = some size ∧ ok →
        (project <|> if sizeOr (sizeOr project (project <|> schema)) (some size) = some size then
          sizeOr (sizeOr project (project <|> schema)) (some size) else none) =
            (project <|> schema <|> some size)) ∧
      (¬ ((project <|> schema <|> some size) = some size ∧ ok) →
        (project <|> if sizeOr (sizeOr project (project <|> schema)) (some size) = some size then
          sizeOr (sizeOr project (project <|> schema)) (some size) else none) = project)) ↔
      (project = none → schema = none ∨ schema = some size → ok) ∧
      (project = none → schema = some 0 → size = 0) ∧ (project = some 0 → ok → size = 0) := by
  cases project with
  | none =>
    cases schema with
    | none => simp [sizeOr]
    | some schema =>
      by_cases hzero : schema = 0
      · subst hzero
        simp [sizeOr]
        grind
      · simp [sizeOr, hzero]
        grind
  | some project =>
    by_cases hzero : project = 0
    · subst hzero
      simp [sizeOr]
      grind
    · simp [sizeOr, hzero]

/-- The check does what it should exactly if the project can commit to a size on which the uploads
agree. -/
theorem commitSafe_iff (hne : db.getUploadedEncodingSizes projectId ≠ []) :
    ((db.SizesAccepted settings projectId ↔ db.Consistent settings projectId) ∧
      (db.Consistent settings projectId → db.sizeLeft projectId = db.expectedSize projectId) ∧
      (¬ db.Consistent settings projectId →
        db.sizeLeft projectId = db.getProjectEncodingSize projectId)) ↔
      db.CommitSafe settings projectId := by
  by_cases hagreed : ∃ size, db.Agree projectId (some size)
  · obtain ⟨size, hagree⟩ := hagreed
    have hiff := agree_iff hne hagree
    have hfirst := head_of_agree hne hagree
    have hverdict : db.SizesAccepted settings projectId ↔
        sizeOr (sizeOr (db.getProjectEncodingSize projectId)
          (db.getProjectEncodingSize projectId <|> db.schemaSize projectId)) (some size) =
            some size ∧ Acceptable settings size := by
      rw [sizesAccepted_iff, chosenSize_eq_sizeOr, hfirst]
      simp only [hiff, Option.some.injEq]
      grind
    have hexpected : db.expectedSize projectId =
        (db.getProjectEncodingSize projectId <|> db.schemaSize projectId <|> some size) := by
      rw [expectedSize, hfirst]
    have hconsistent : db.Consistent settings projectId ↔
        db.expectedSize projectId = some size ∧ Acceptable settings size := by
      unfold Consistent
      simp only [hiff, Option.some.injEq]
      grind
    rw [commitSafe_iff_of_agree hne hagree, hverdict, hconsistent, hexpected, sizeLeft]
    simp only [hiff, chosenSize_eq_sizeOr, hfirst]
    exact commit_iff ..
  · have hrejected : ¬ db.SizesAccepted settings projectId := by
      rw [sizesAccepted_iff]
      rintro ⟨size, -, hagree, -⟩
      exact hagreed ⟨size, hagree⟩
    have hinconsistent : ¬ db.Consistent settings projectId := by
      rintro ⟨size, -, hagree, -⟩
      exact hagreed ⟨size, hagree⟩
    have hleft : db.sizeLeft projectId = db.getProjectEncodingSize projectId := by
      unfold sizeLeft
      cases hchosen : db.chosenSize projectId with
      | none => simp
      | some size =>
        rw [if_neg fun hagree => hagreed ⟨size, hagree⟩]
        simp
    refine ⟨fun _ => ⟨?_, ?_, ?_⟩, fun _ => ?_⟩
    · exact fun size hagree => absurd ⟨size, hagree⟩ hagreed
    · exact fun size hagree => absurd ⟨size, hagree⟩ hagreed
    · exact fun size hagree => absurd ⟨size, hagree⟩ hagreed
    · exact ⟨by simp [hrejected, hinconsistent], fun h => absurd h hinconsistent, fun _ => hleft⟩

section Check
variable {row : ProjectRow} {check : SizeCheck}

/-- What the check finds, in terms of the size that it has chosen. -/
inductive CheckFinds (db : Database) (projectId : ProjectId) : Except Error SizeCheck → Prop
  | mismatch {dpId : DpId} (hdp : dpId ∈ (db.getUploadedEncodingSizes projectId).map Prod.fst)
      (hdisagree : ¬ db.Agree projectId (db.chosenSize projectId)) :
      CheckFinds db projectId (.ok ⟨none, [dpId], some .mismatch⟩)
  | noSize (hagree : db.Agree projectId none) (hchosen : db.chosenSize projectId = none) :
      CheckFinds db projectId (.error .typeError)
  | size {size : ℤ} {invalid : List DpId} {valueError : Option SizeError}
      (hagree : db.Agree projectId (some size)) (hchosen : db.chosenSize projectId = some size)
      (hinvalid : ∀ dpId ∈ invalid, dpId ∈ (db.getUploadedEncodingSizes projectId).map Prod.fst) :
      CheckFinds db projectId (.ok ⟨if db.getProjectEncodingSize projectId = none then some size
        else none, invalid, valueError⟩)

theorem checkFinds (settings : Settings) (hrow : db.findProject projectId = some row)
    (hne : db.getUploadedEncodingSizes projectId ≠ []) :
    CheckFinds db projectId (checkProjectEncodingSize settings db projectId) := by
  have hfirst := List.head?_eq_some_head hne
  have hproject : db.getProjectEncodingSize projectId = row.encodingSize := by
    rw [getProjectEncodingSize, hrow]
    rfl
  have hchosen : db.chosenSize projectId = sizeOr (sizeOr row.encodingSize
      (db.getProjectSchemaEncodingSize projectId))
        ((db.getUploadedEncodingSizes projectId).head hne).2 := by
    rw [chosenSize, hrow, hfirst]
    rfl
  unfold checkProjectEncodingSize
  dsimp only
  rw [hfirst, hrow]
  dsimp only [orRaise, Option.elim_some, bind, Except.bind]
  rw [← hchosen, ← hproject]
  cases hmismatch : (db.getUploadedEncodingSizes projectId).find?
    fun r => r.2 ≠ db.chosenSize projectId with
  | some mismatch =>
    have hmem := List.mem_of_find?_eq_some hmismatch
    have hdiffers := List.find?_some hmismatch
    refine .mismatch (List.mem_map_of_mem hmem) fun hagree => ?_
    simp [hagree mismatch hmem] at hdiffers
  | none =>
    have hagree : db.Agree projectId (db.chosenSize projectId) := by
      have hnone := List.find?_eq_none.mp hmismatch
      simpa [Agree] using hnone
    cases hsize : db.chosenSize projectId with
    | none =>
      rw [hsize] at hagree
      exact .noSize hagree hsize
    | some size =>
      rw [hsize] at hagree
      dsimp only [Option.elim_some]
      by_cases hbounds : settings.minEncodingSize ≤ size ∧ size ≤ settings.maxEncodingSize
      · rw [if_pos hbounds]
        exact .size hagree hsize (List.forall_mem_nil _)
      · rw [if_neg hbounds]
        exact .size hagree hsize fun dpId hdp => hdp

theorem CheckFinds.setSize (h : CheckFinds db projectId (.ok check)) :
    (check.setSize <|> db.getProjectEncodingSize projectId) = db.sizeLeft projectId := by
  unfold sizeLeft
  cases h with
  | mismatch _ hdisagree =>
    rw [if_neg hdisagree]
    simp
  | size hagree hchosen =>
    rw [hchosen, if_pos hagree]
    cases db.getProjectEncodingSize projectId <;> simp

theorem CheckFinds.invalid (h : CheckFinds db projectId (.ok check)) :
    ∀ dpId ∈ check.invalid, dpId ∈ (db.getUploadedEncodingSizes projectId).map Prod.fst := by
  cases h with
  | mismatch hdp =>
    intro d hd
    rwa [List.mem_singleton.mp hd]
  | size _ _ hinvalid => exact hinvalid

theorem uploadsOf_of_size {dpId : DpId}
    (h : dpId ∈ (db.getUploadedEncodingSizes projectId).map Prod.fst) :
    db.uploadsOf dpId ≠ [] := by
  obtain ⟨r, hr, rfl⟩ := List.mem_map.mp h
  have hmem := (List.perm_insertionSort _ _).mem_iff.mp hr
  obtain ⟨upload, hupload, rfl⟩ := List.mem_map.mp hmem
  rw [providerUploads_eq] at hupload
  obtain ⟨d, -, hupload⟩ := List.mem_flatMap.mp hupload
  obtain ⟨u, hu, rfl⟩ := List.mem_map.mp hupload
  exact List.ne_nil_of_mem hu

theorem CheckFinds.uploadsOf_invalid (h : CheckFinds db projectId (.ok check)) :
    ∀ dpId ∈ check.invalid, db.uploadsOf dpId ≠ [] :=
  fun dpId hdp => uploadsOf_of_size (h.invalid dpId hdp)

/-- An exception other than a `ValueError` means that no size was chosen. -/
theorem CheckFinds.error (settings : Settings) {e : Error}
    (h : CheckFinds db projectId (.error e)) :
    ¬ db.SizesAccepted settings projectId ∧
      db.sizeLeft projectId = db.getProjectEncodingSize projectId := by
  cases h with
  | noSize hagree hchosen =>
    constructor
    · rw [sizesAccepted_iff]
      rintro ⟨size, hsize, -⟩
      simp [hchosen] at hsize
    · simp [sizeLeft, hchosen]

end Check

end Database
end EntityService
