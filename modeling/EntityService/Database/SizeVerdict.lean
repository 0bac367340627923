import EntityService.Database.Providers
import EntityService.Database.Readiness

/-! Whether the encoding sizes of the uploads of a project are accepted. The verdict does not
change when the project commits to the size that the check has chosen. -/
namespace EntityService
open Lib

namespace Database

def chosenSize (db : Database) (projectId : ProjectId) : Option ℤ :=
  sizeOr (sizeOr ((db.findProject projectId).bind ProjectRow.encodingSize)
    (db.getProjectSchemaEncodingSize projectId))
      ((db.getUploadedEncodingSizes projectId).head?.bind Prod.snd)

def SizesAccepted (settings : Settings) (db : Database) (projectId : ProjectId) : Prop :=
  (∀ r ∈ db.getUploadedEncodingSizes projectId, r.2 = db.chosenSize projectId) ∧
    ∃ size, db.chosenSize projectId = some size ∧ settings.minEncodingSize ≤ size ∧
      size ≤ settings.maxEncodingSize ∧ size % 8 = 0

theorem chosenSize_eq {db : Database} {projectId : ProjectId} {row : ProjectRow}
    (hrow : db.findProject projectId = some row) : db.chosenSize projectId =
      sizeOr (sizeOr row.encodingSize (row.encodingSize <|> row.schemaLength.map (·.tdiv 8)))
        ((db.getUploadedEncodingSizes projectId).head?.bind Prod.snd) := by
  simp [chosenSize, getProjectSchemaEncodingSize, hrow]

theorem sizeOr_chosen {enc schema first : Option ℤ} {size : ℤ}
    (h : sizeOr (sizeOr enc (enc <|> schema)) first = some size) :
    sizeOr (sizeOr (some size) (some size <|> schema)) first = some size := by
  unfold sizeOr at h ⊢
  by_cases hzero : size = 0
  · subst hzero
    cases enc with
    | none =>
      by_cases hschema : schema = none ∨ schema = some 0
      · simpa [hschema] using h
      · simp [hschema] at h
        simp [h] at hschema
    | some enc =>
      by_cases henc : enc = 0
      · subst henc
        simpa using h
      · simp only [reduceCtorEq, Option.some.injEq, henc, or_self, if_false] at h
  · simp [hzero]

theorem checkProjectEncodingSize_ok {settings : Settings} {db : Database} {projectId : ProjectId}
    {check : SizeCheck} (h : checkProjectEncodingSize settings db projectId = .ok check) :
    (check.raises = false ↔ db.SizesAccepted settings projectId) ∧
      ∀ size, check.setSize = some size → db.chosenSize projectId = some size := by
  obtain ⟨first, hfirst, h⟩ := bind_eq_ok.mp h
  obtain ⟨row, hrow, h⟩ := bind_eq_ok.mp h
  rw [orRaise_eq_ok] at hfirst hrow
  have hchosen : db.chosenSize projectId = sizeOr (sizeOr row.encodingSize
      (db.getProjectSchemaEncodingSize projectId)) first.2 := by
    rw [chosenSize, hrow, hfirst]
    rfl
  rw [← hchosen] at h
  dsimp only at h
  unfold SizesAccepted
  cases hmismatch : (db.getUploadedEncodingSizes projectId).find?
    fun r => r.2 ≠ db.chosenSize projectId with
  | some mismatch =>
    rw [hmismatch] at h
    cases h
    refine ⟨⟨nofun, fun haccepted => ?_⟩, nofun⟩
    have hne := List.find?_some hmismatch
    simp [haccepted.1 mismatch (List.mem_of_find?_eq_some hmismatch)] at hne
  | none =>
    rw [hmismatch] at h
    obtain ⟨size, hsize, h⟩ := bind_eq_ok.mp h
    rw [orRaise_eq_ok] at hsize
    have hequal : ∀ r ∈ db.getUploadedEncodingSizes projectId, r.2 = db.chosenSize projectId := by
      simpa using List.find?_eq_none.mp hmismatch
    have hset : ∀ size', (if row.encodingSize = none then some size else none) = some size' →
        db.chosenSize projectId = some size' := by
      intro size' h
      split_ifs at h
      rw [hsize, h]
    rw [hsize] at hequal hset ⊢
    by_cases hbounds : settings.minEncodingSize ≤ size ∧ size ≤ settings.maxEncodingSize
    · obtain rfl := Except.ok.inj ((if_pos hbounds).symm.trans h)
      refine ⟨⟨fun hmultiple => ⟨hequal, size, rfl, hbounds.1, hbounds.2, ?_⟩, ?_⟩, hset⟩
      · simpa [SizeCheck.raises] using hmultiple
      · rintro ⟨-, size', hsize', -, -, hmultiple⟩
        cases hsize'
        simpa [SizeCheck.raises] using hmultiple
    · obtain rfl := Except.ok.inj ((if_neg hbounds).symm.trans h)
      refine ⟨⟨nofun, ?_⟩, hset⟩
      rintro ⟨-, size', hsize', hmin, hmax, -⟩
      cases hsize'
      exact absurd ⟨hmin, hmax⟩ hbounds

section Congr
variable {db db' : Database} {projectId : ProjectId}

theorem map_providerUploads (db : Database) (projectId : ProjectId) :
    (db.providerUploads projectId).map (fun r => (r.1.id, r.2.encodingSize)) =
      (db.providerKeys.filter fun k => k.2 = projectId).flatMap fun k =>
        ((db.uploadsOf k.1).map UploadRow.encodingSize).map (Prod.mk k.1) := by
  rw [providerUploads_eq, providerKeys, List.filter_map, List.flatMap_map, List.map_flatMap]
  refine List.flatMap_congr fun d _ => ?_
  rw [List.map_map, List.map_map]
  rfl

theorem getUploadedEncodingSizes_congr (hkeys : db'.providerKeys = db.providerKeys)
    (hsizes : ∀ dpId, (dpId, projectId) ∈ db.providerKeys →
      (db'.uploadsOf dpId).map UploadRow.encodingSize =
        (db.uploadsOf dpId).map UploadRow.encodingSize) :
    db'.getUploadedEncodingSizes projectId = db.getUploadedEncodingSizes projectId := by
  unfold getUploadedEncodingSizes
  rw [map_providerUploads, map_providerUploads, hkeys]
  congr 1
  refine List.flatMap_congr fun k hk => ?_
  obtain ⟨hmem, hproject⟩ := List.mem_filter.mp hk
  have hproject : k.2 = projectId := of_decide_eq_true hproject
  rw [hsizes k.1 (hproject ▸ hmem)]

theorem chosenSize_congr (hproject : db'.findProject projectId = db.findProject projectId)
    (hsizes : db'.getUploadedEncodingSizes projectId = db.getUploadedEncodingSizes projectId) :
    db'.chosenSize projectId = db.chosenSize projectId := by
  unfold chosenSize getProjectSchemaEncodingSize
  rw [hproject, hsizes]

/-- The same sizes and the same choice have the same verdict. -/
theorem sizesAccepted_congr {settings : Settings}
    (hsizes : db'.getUploadedEncodingSizes projectId = db.getUploadedEncodingSizes projectId)
    (hchosen : db'.chosenSize projectId = db.chosenSize projectId) :
    db'.SizesAccepted settings projectId ↔ db.SizesAccepted settings projectId := by
  unfold SizesAccepted
  rw [hsizes, hchosen]

end Congr

theorem findProject_setProjectEncodingSize (db : Database) (projectId p : ProjectId) (size : ℤ) :
    (db.setProjectEncodingSize projectId size).findProject p = (db.findProject p).map fun r =>
      if p = projectId then { r with encodingSize := some size } else r := by
  have hid : ((fun r : ProjectRow => decide (r.projectId = p)) ∘ fun r =>
      if r.projectId = projectId then { r with encodingSize := some size } else r) =
        fun r => decide (r.projectId = p) := by
    funext r
    by_cases hr : r.projectId = projectId <;> simp [hr]
  unfold findProject setProjectEncodingSize
  rw [List.find?_map, hid]
  refine Option.map_congr fun r hr => ?_
  have hr : r.projectId = p := by simpa using List.find?_some hr
  rw [hr]

theorem chosenSize_setProjectEncodingSize {db : Database} {projectId p : ProjectId} {size : ℤ}
    (h : p = projectId → db.chosenSize p = some size) :
    (db.setProjectEncodingSize projectId size).chosenSize p = db.chosenSize p := by
  have hproject := findProject_setProjectEncodingSize db projectId p size
  have hsizes : (db.setProjectEncodingSize projectId size).getUploadedEncodingSizes p =
      db.getUploadedEncodingSizes p := rfl
  by_cases hp : p = projectId
  · cases hrow : db.findProject p with
    | none =>
      rw [hrow] at hproject
      exact chosenSize_congr (hproject.trans hrow.symm) hsizes
    | some row =>
      rw [hrow, Option.map_some, if_pos hp] at hproject
      have hchosen := h hp
      rw [hchosen, chosenSize_eq hproject, hsizes]
      rw [chosenSize_eq hrow] at hchosen
      exact sizeOr_chosen hchosen
  · simp only [if_neg hp, Option.map_id'] at hproject
    exact chosenSize_congr hproject hsizes

end Database
end EntityService
