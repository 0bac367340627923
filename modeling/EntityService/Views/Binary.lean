import EntityService.Tasks.Success
import EntityService.Views.Project

/-! Binary uploads: what a request that is accepted has stored. -/
namespace EntityService.Views
open Lib Database Tasks

variable {settings : Settings} {projectId : ProjectId} {dpId : DpId} {token : Token} {w w' : World}
  {headers : BinaryHeaders} {data : Bytes}

/-- What the checks of a binary upload have established before anything is stored. -/
structure AcceptedBinary (settings : Settings) (w : World) (projectId : ProjectId)
    (headers : BinaryHeaders) (data : Bytes) (count : ℤ) (size : ℕ) : Prop where
  headers : checkBinaryUploadHeaders settings headers = .ok (count, (size : ℤ))
  schema : w.db.getProjectSchemaEncodingSize projectId ∈ [none, some (size : ℤ)]
  length : (data.length : ℤ) = size * count

/-- A binary upload that is accepted has stored its data piece by piece. -/
theorem handleBinaryUpload_ok {u : Unit}
    (h : handleBinaryUpload settings projectId dpId headers data token w = (w', .ok u)) :
    ∃ (count : ℤ) (size : ℕ),
      AcceptedBinary settings w projectId headers data count size ∧
      (binaryPieces data size count.toNat).length ≤ 2 ^ 32 ∧
      Completed w.db w'.db dpId token count size [(DEFAULT_BLOCK_ID, count)]
        (packedItems size (binaryPieces data size count.toNat) fun _ => [DEFAULT_BLOCK_ID]) := by
  unfold handleBinaryUpload at h
  rw [Action.get_bind] at h
  obtain ⟨w1, ⟨count, size⟩, hlift, h1⟩ := Action.bind_eq_ok.mp h
  obtain ⟨hheaders, rfl⟩ := Action.lift_ok hlift
  obtain ⟨w2, _, hlift, h2⟩ := Action.bind_eq_ok.mp h1
  obtain ⟨hschema, rfl⟩ := Action.lift_ok hlift
  obtain ⟨w3, gen, hlift, h3⟩ := Action.bind_eq_ok.mp h2
  obtain ⟨hgen, rfl⟩ := Action.lift_ok hlift
  obtain ⟨w4, _, hlift, h4⟩ := Action.bind_eq_ok.mp h3
  obtain ⟨hlength, rfl⟩ := Action.lift_ok hlift
  have hstream : (if false = true then includeEncodingIdInJsonStream [] size count
      else includeEncodingIdInBinaryStream data size count) = .ok gen := hgen
  obtain ⟨s, rfl, hitems⟩ := convertedStream_eq_ok hstream
  have hupload := Action.handle_ok (fun e w1 w2 a => by cases e <;> exact nofun) h4
  obtain ⟨items, hmap, hcompleted⟩ := uploadClkDataBinary_ok hupload
  obtain ⟨encodings, hread, hlen, rfl⟩ := hitems items hmap
  cases hread
  exact ⟨count, s, ⟨hheaders, ensure_eq_ok.mp hschema, ensure_eq_ok.mp hlength⟩, hlen, hcompleted⟩

theorem handleBinaryUpload_error {e : Error}
    (h : handleBinaryUpload settings projectId dpId headers data token w = (w', .error e))
    (hfresh : w.db.FreshToken token) : ¬ w'.db.ReadyUpload token := by
  unfold handleBinaryUpload at h
  rw [Action.get_bind] at h
  rcases Action.bind_eq_error.mp h with hlift | ⟨w1, ⟨count, size⟩, hlift, h1⟩
  · exact Action.lift_error hlift ▸ hfresh.not_ready
  obtain rfl := (Action.lift_ok hlift).2
  rcases Action.bind_eq_error.mp h1 with hlift | ⟨w2, _, hlift, h2⟩
  · exact Action.lift_error hlift ▸ hfresh.not_ready
  obtain rfl := (Action.lift_ok hlift).2
  rcases Action.bind_eq_error.mp h2 with hlift | ⟨w3, gen, hlift, h3⟩
  · exact Action.lift_error hlift ▸ hfresh.not_ready
  obtain rfl := (Action.lift_ok hlift).2
  rcases Action.bind_eq_error.mp h3 with hlift | ⟨w4, _, hlift, h4⟩
  · exact Action.lift_error hlift ▸ hfresh.not_ready
  obtain rfl := (Action.lift_ok hlift).2
  obtain ⟨e', hupload⟩ := Action.handle_error (fun e w1 => by cases e <;> rfl) h4
  exact uploadClkDataBinary_error hupload hfresh

theorem handleBinaryUpload_succeeds (hcan : CanUpload w.db dpId token) {count : ℤ} {size : ℕ}
    (haccepted : AcceptedBinary settings w projectId headers data count size) (hcount : Int4 count)
    (hsize : Int4 size) :
    ∃ db, handleBinaryUpload settings projectId dpId headers data token w =
        ({ w with db := db }, .ok ()) ∧ db.projects = w.db.projects := by
  have hlength : (binaryPieces data size count.toNat).length ≤ 2 ^ 31 := by
    have hlen : (binaryPieces data size count.toNat).length = count.toNat := by simp [binaryPieces]
    unfold Int4 at hcount
    omega
  have hread : objectEncodings false [] data size count.toNat =
      .ok (binaryPieces data size count.toNat) := rfl
  obtain ⟨gen, hconv, hgen⟩ := convertedStream_of_objectEncodings hread (by omega)
  obtain ⟨db, hupload, hprojects, -⟩ :=
    uploadClkDataBinary_succeeds settings hcan hcount hsize hlength hgen
  refine ⟨db, ?_, hprojects⟩
  have hstream : includeEncodingIdInBinaryStream data size count = .ok gen := hconv
  have hschema : ensure (w.db.getProjectSchemaEncodingSize projectId ∈ [none, some (size : ℤ)])
      (Error.problem 400 "Upload 'Hash-Size' doesn't match project settings") = .ok () :=
    ensure_eq_ok.mpr haccepted.schema
  have hfits : ensure ((data.length : ℤ) = size * count) (Error.problem 400
      "Uploaded data did not match the expected size. Check request headers are correct") =
        .ok () := ensure_eq_ok.mpr haccepted.length
  unfold handleBinaryUpload
  rw [Action.get_bind, haccepted.headers, Action.lift_ok_bind]
  change (Action.lift (ensure (w.db.getProjectSchemaEncodingSize projectId ∈
    [none, some (size : ℤ)]) _) >>= _) w = _
  rw [hschema, Action.lift_ok_bind, hstream, Action.lift_ok_bind, hfits, Action.lift_ok_bind]
  unfold Action.handle
  rw [hupload]

theorem projectBinaryclksPost_of_error {e : Error}
    (h : handleBinaryUpload settings projectId dpId headers data token w = (w', .error e)) :
    projectBinaryclksPost settings projectId dpId headers data token w =
      ({ w' with db := w'.db.setDataproviderUploadState dpId .error }, .error e) := by
  unfold projectBinaryclksPost
  refine Action.bind_of_error ?_
  unfold Action.handle
  rw [h]
  rfl

theorem projectBinaryclksPost_of_ok {u : Unit}
    (h : handleBinaryUpload settings projectId dpId headers data token w = (w', .ok u))
    (hproject : w'.db.checkProjectExists projectId = true) :
    ∃ check, projectBinaryclksPost settings projectId dpId headers data token w =
      ({ w' with db := w'.db.setDataproviderUploadState dpId .done }, .ok check) := by
  obtain ⟨check, hcheck⟩ := scheduleCheck_succeeds
    (w := { w' with db := w'.db.setDataproviderUploadState dpId .done })
    (findProject_of_exists hproject) false
  refine ⟨check, ?_⟩
  have hhandle : (handleBinaryUpload settings projectId dpId headers data token).handle (fun e => do
      setUploadState dpId .error
      Action.raise e) w = (w', .ok u) := by
    unfold Action.handle
    rw [h]
  unfold projectBinaryclksPost
  rw [Action.bind_of_ok hhandle]
  exact hcheck

end EntityService.Views
