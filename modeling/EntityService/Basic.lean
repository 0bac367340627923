import EntityService.Lib.Dict
import EntityService.Lib.Monadic

/-! Identifiers and exceptions shared by the database, the background tasks and the views. -/
namespace EntityService

/-- Primary key of a row of `dataproviders`. -/
abbrev DpId := ℕ

/-- Primary key of a row of `blocks`, drawn from a sequence that starts at one. -/
abbrev BlockId := ℕ

/-- A block name as the `blocks` table returns it. -/
abbrev BlockName := List Char

abbrev ProjectId := String

/-- An update token or a receipt token. -/
abbrev Token := String

abbrev FileName := String

abbrev Bytes := List UInt8

/-- Members of lists of texts, of keys and of sizes are found by one instance each. -/
instance lawfulBEqText : LawfulBEq (List Char) := inferInstance

instance lawfulBEqKeys : LawfulBEq (DpId × ProjectId) := inferInstance

instance lawfulBEqSize : LawfulBEq (Option ℤ) := inferInstance

/-- The exceptions the modelled functions raise. -/
inductive Error
  | structError
  | binasciiError
  | typeError
  | valueError
  | keyError
  | indexError
  | zeroDivisionError
  | overflowError
  | stopIteration
  | runtimeError
  | assertionError
  | notImplementedError
  | incompleteJSONError
  | databaseError
  | s3Error
  /-- A `ProblemException`, whose status and detail are sent to the client. -/
  | problem (status : ℕ) (detail : String)
deriving DecidableEq, Repr

end EntityService
