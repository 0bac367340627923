import EntityService.Tasks.EncodingUploading

/-! The encoding sizes of the uploads of a project, and the check that they agree. -/
namespace EntityService
open Lib

namespace Database

/-- The providers with the encoding sizes of their uploads, ordered by provider. -/
def getUploadedEncodingSizes (db : Database) (projectId : ProjectId) : List (DpId × Option ℤ) :=
  ((db.providerUploads projectId).map fun r => (r.1.id, r.2.encodingSize)).insertionSort
    fun a b => a.1 ≤ b.1

def setProjectEncodingSize (db : Database) (projectId : ProjectId) (encodingSize : ℤ) : Database :=
  { db with projects := db.projects.map fun r =>
      if r.projectId = projectId then { r with encodingSize := some encodingSize } else r }

/-- The transaction of `handle_invalid_encoding_data`. -/
def invalidateUpload (db : Database) (dpId : DpId) : Except Error Database := do
  let _ ← orRaise (db.uploads.find? (fun r => r.dp = dpId)) .databaseError
  return db.updateEncodingMetadata (some "DELETED") dpId .error

theorem handleInvalidEncodingData_eq (dpId : DpId) :
    Tasks.handleInvalidEncodingData dpId = transaction fun db => db.invalidateUpload dpId := rfl

end Database

/-- The operator `or` on a size that may be missing. Zero counts as missing. -/
def sizeOr (a b : Option ℤ) : Option ℤ := if a = none ∨ a = some 0 then b else a

/-- Why the check of the encoding sizes raises a `ValueError`. -/
inductive SizeError
  | mismatch | outOfBounds | notMultiple
deriving DecidableEq, Repr

def SizeError.message : SizeError → String
  | .mismatch => "Mismatch in encoding sizes. Stopping"
  | .outOfBounds => "Encoding size out of configured bounds"
  | .notMultiple => "Encoding size must be multiple of 8 bytes (64 bits)"

/-- What the check of the encoding sizes finds: the size that it sets for the project, the
providers whose data it handles as invalid, and the `ValueError` that it raises. -/
structure SizeCheck where
  setSize : Option ℤ
  invalid : List DpId
  valueError : Option SizeError
deriving DecidableEq, Repr

def SizeCheck.raises (check : SizeCheck) : Bool := check.valueError.isSome

/-- `check_and_set_project_encoding_size`, without the writes that it asks for. -/
def checkProjectEncodingSize (settings : Settings) (db : Database) (projectId : ProjectId) :
    Except Error SizeCheck := do
  let uploadedEncodingSizes := db.getUploadedEncodingSizes projectId
  let first ← orRaise uploadedEncodingSizes.head? .indexError
  let project ← orRaise (db.findProject projectId) .databaseError
  let encodingSize := sizeOr (sizeOr project.encodingSize
    (db.getProjectSchemaEncodingSize projectId)) first.2
  match uploadedEncodingSizes.find? (fun r => r.2 ≠ encodingSize) with
  | some mismatch => return ⟨none, [mismatch.1], some .mismatch⟩
  | none =>
    -- without a size the comparison with the bounds raises
    let size ← orRaise encodingSize .typeError
    let setSize := if project.encodingSize = none then some size else none
    if settings.minEncodingSize ≤ size ∧ size ≤ settings.maxEncodingSize then
      return ⟨setSize, [], if size % 8 = 0 then none else some .notMultiple⟩
    else return ⟨setSize, uploadedEncodingSizes.map Prod.fst, some .outOfBounds⟩

end EntityService
