import EntityService.World

/-! Connections to the database. The statements of a `with DBConn()` block run in one open
transaction that is committed at the end of the block, or rolled back when its connection is put
back into the pool after an exception. -/
namespace EntityService
open Lib

structure Connection where
  /-- The database as the open transaction sees it. -/
  db : Database
  /-- Whether a statement has failed, after which the transaction accepts no other statement. -/
  failed : Bool

/-- What is done with a connection. The writes so far stay in the transaction if it raises. -/
abbrev Statements := Action Connection Error

def execute (statement : Database → Except Error Database) : Statements Unit := fun conn =>
  if conn.failed then (conn, .error .databaseError)
  else match statement conn.db with
    | .ok db => ({ conn with db := db }, .ok ())
    | .error e => ({ conn with failed := true }, .error e)

/-- The commit of a failed transaction rolls it back. -/
def Connection.commit (conn : Connection) (committed : Database) : Database :=
  if conn.failed then committed else conn.db

def withDBConn {α : Type} (body : Statements α) : Task α := fun w =>
  match body ⟨w.db, false⟩ with
  | (conn, .ok a) => ({ w with db := conn.commit w.db }, .ok a)
  | (_, .error e) => (w, .error e)

section Simulation

/-- The statements have the outcome of the function. Which exception is raised may differ. -/
structure Simulates (x : Statements Unit) (f : Database → Except Error Database) : Prop where
  of_ok : ∀ {db db'}, f db = .ok db' → x ⟨db, false⟩ = (⟨db', false⟩, .ok ())
  of_error : ∀ {db e}, f db = .error e → ∃ conn e', x ⟨db, false⟩ = (conn, .error e')

variable {x y : Statements Unit} {f g : Database → Except Error Database}

theorem Simulates.congr (h : Simulates x f) (hfg : ∀ db, f db = g db) : Simulates x g := by
  rw [← funext hfg]
  exact h

theorem simulates_execute (f : Database → Except Error Database) : Simulates (execute f) f where
  of_ok h := by simp [execute, h]
  of_error {db e} h := ⟨⟨db, true⟩, e, by simp [execute, h]⟩

theorem simulates_pure : Simulates (pure ()) .ok where
  of_ok h := by
    cases h
    rfl
  of_error h := by cases h

theorem Simulates.bind (hx : Simulates x f) (hy : Simulates y g) :
    Simulates (x >>= fun _ => y) (fun db => f db >>= g) where
  of_ok {db db''} h := by
    obtain ⟨db', hf, hg⟩ := bind_eq_ok.mp h
    exact (Action.bind_of_ok (hx.of_ok hf)).trans (hy.of_ok hg)
  of_error {db e} h := by
    cases hf : f db with
    | ok db' =>
      rw [hf, ok_bind] at h
      obtain ⟨conn, e', he⟩ := hy.of_error h
      exact ⟨conn, e', (Action.bind_of_ok (hx.of_ok hf)).trans he⟩
    | error e =>
      obtain ⟨conn, e', he⟩ := hx.of_error hf
      exact ⟨conn, e', Action.bind_of_error he⟩

/-- What is computed between the statements. -/
theorem simulates_lift_bind {α : Type} {a : Except Error α} {y : α → Statements Unit}
    {g : α → Database → Except Error Database} (h : ∀ b, Simulates (y b) (g b)) :
    Simulates (Action.lift a >>= y) (fun db => a >>= fun b => g b db) := by
  cases a with
  | ok b => exact ⟨fun hf => (h b).of_ok hf, fun hf => (h b).of_error hf⟩
  | error e =>
    refine ⟨fun hf => ?_, fun {db _} _ => ⟨⟨db, false⟩, e, rfl⟩⟩
    cases hf

/-- What is read from the database decides on the statements. -/
theorem simulates_get_bind {y : Connection → Statements Unit}
    {g : Database → Database → Except Error Database}
    (h : ∀ db, Simulates (y ⟨db, false⟩) (g db)) :
    Simulates (Action.get >>= y) (fun db => g db db) :=
  ⟨fun {db _} hf => (h db).of_ok hf, fun {db _} hf => (h db).of_error hf⟩

theorem simulates_forM {α : Type} {y : α → Statements Unit}
    {g : Database → α → Except Error Database} (h : ∀ a, Simulates (y a) fun db => g db a)
    (l : List α) : Simulates (l.forM y) (fun db => l.foldlM g db) := by
  induction l with
  | nil => exact simulates_pure
  | cons a l ih =>
    simp only [List.foldlM_cons]
    exact (h a).bind ih

/-- A handler that raises again turns no failure into a success. -/
theorem Simulates.handle (h : Simulates x f) {handler : Error → Statements Unit}
    (hraise : ∀ e conn, ∃ conn' e', handler e conn = (conn', .error e')) :
    Simulates (x.handle handler) f where
  of_ok hf := by simp only [Action.handle, h.of_ok hf]
  of_error hf := by
    obtain ⟨conn, e', hx⟩ := h.of_error hf
    obtain ⟨conn', e'', hh⟩ := hraise e' conn
    exact ⟨conn', e'', by simp only [Action.handle, hx, hh]⟩

/-- A block of statements is the transaction that they simulate. -/
theorem Simulates.agrees (h : Simulates x f) : Action.Agrees (withDBConn x) (transaction f) := by
  intro w
  cases hf : f w.db with
  | ok db =>
    rw [transaction_of_ok hf, withDBConn, h.of_ok hf]
    exact ⟨rfl, rfl⟩
  | error e =>
    obtain ⟨conn, e', hx⟩ := h.of_error hf
    rw [transaction_of_error hf, withDBConn, hx]
    exact ⟨rfl, rfl⟩

end Simulation
end EntityService
