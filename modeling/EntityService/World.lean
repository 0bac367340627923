import EntityService.EncodingStorage.Pipeline
import EntityService.Lib.Action

/-! The state that requests and background tasks share, and the background tasks that a
request schedules. -/
namespace EntityService
open Lib

/-- The name of an object in an object store. -/
structure ExternalFile where
  bucket : String
  path : List Char
deriving DecidableEq, Repr

/-- An object that a client uploaded to an object store, with its metadata. The last two
fields are what `ijson` yields from the data for `clks.item` and for the pairs of `blocks`. -/
structure ExternalObject where
  hashCount : Except Error ℤ
  hashSize : Except Error ℤ
  data : Bytes
  clks : Generator JsonScalar
  blocks : Generator (List Char × List JsonScalar)

structure World where
  db : Database
  /-- Raw JSON uploads that wait to be deserialized. -/
  quarantine : Dict FileName (List (List JsonScalar))
  objects : Dict ExternalFile ExternalObject

/-- A request or a background task. Its committed transactions survive an exception. -/
abbrev Task := Action World Error

/-- A `with DBConn()` block: the writes are committed together or rolled back. -/
def transaction (body : Database → Except Error Database) : Task Unit :=
  Action.atomic fun w => do return { w with db := ← body w.db }

theorem transaction_eq_ok {body : Database → Except Error Database} {w w' : World} {u : Unit} :
    transaction body w = (w', .ok u) ↔ ∃ db, body w.db = .ok db ∧ w' = { w with db := db } := by
  rw [transaction, Action.atomic_eq_ok, bind_eq_ok]
  simp only [pure_eq_ok, Except.ok.injEq, eq_comm]

theorem transaction_eq_error {body : Database → Except Error Database} {w w' : World} {e : Error} :
    transaction body w = (w', .error e) ↔ body w.db = .error e ∧ w' = w := by
  rw [transaction, Action.atomic_eq_error]
  refine and_congr_left fun _ => ?_
  cases body w.db with
  | error e => simp
  | ok db => simp

theorem transaction_of_ok {body : Database → Except Error Database} {w : World} {db : Database}
    (h : body w.db = .ok db) : transaction body w = ({ w with db := db }, .ok ()) :=
  transaction_eq_ok.mpr ⟨db, h, rfl⟩

theorem transaction_of_error {body : Database → Except Error Database} {w : World} {e : Error}
    (h : body w.db = .error e) : transaction body w = (w, .error e) := by
  refine Action.atomic_of_error ?_
  rw [h, error_bind]

/-- What follows a transaction runs after its writes, or not at all. -/
theorem transaction_bind {α : Type} (body : Database → Except Error Database) (f : Unit → Task α)
    (w : World) : (transaction body >>= f) w = match body w.db with
      | .ok db => f () { w with db := db }
      | .error e => (w, .error e) := by
  cases h : body w.db with
  | ok db => exact Action.bind_of_ok (transaction_of_ok h)
  | error e => exact Action.bind_of_error (transaction_of_error h)

inductive Job
  | pullExternalDataEncodingsOnly (object : ExternalFile)
  | pullExternalData (encodings blocks : ExternalFile)
  | handleRawUpload
deriving DecidableEq, Repr

def RAW_FILENAME_FMT (receiptToken : Token) : FileName := "quarantine/" ++ receiptToken ++ ".txt"

end EntityService
