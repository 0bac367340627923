import EntityService.Database.Connection

/-! The context manager of a connection, with a commit, a cancellation and notices that may raise.
It logs what they raise, so that a block may go on although nothing of it was committed. -/
namespace EntityService.DBConn
open Lib

section Model
variable {D : Type}

/-- A connection taken from the pool. -/
structure Session (D : Type) where
  committed : D
  /-- The database as the open transaction sees it. -/
  transaction : D
  /-- Whether a statement has failed, after which a commit rolls the transaction back. -/
  failed : Bool
  inPool : Bool
deriving DecidableEq, Repr

/-- Which operations of the connection raise an exception. A commit may raise after the server has
carried it out. -/
structure Behaviour where
  commitRaises : Bool
  commitReached : Bool
  noticesRaise : Bool
  cancelRaises : Bool
deriving DecidableEq, Repr

def Session.commit (s : Session D) : Session D :=
  if s.failed then { s with transaction := s.committed, failed := false }
  else { s with committed := s.transaction }

def getconn (db : D) : Session D := ⟨db, db, false, false⟩

/-- `connection_pool.putconn`, which rolls an open transaction back. -/
def putconn (s : Session D) : Session D := ⟨s.committed, s.committed, false, true⟩

variable (b : Behaviour)

def commit : Action (Session D) Error Unit := fun s =>
  if b.commitRaises then (if b.commitReached then s.commit else s, .error .databaseError)
  else (s.commit, .ok ())

def notices : Action (Session D) Error Unit :=
  if b.noticesRaise then .raise .databaseError else pure ()

def cancel : Action (Session D) Error Unit :=
  if b.cancelRaises then .raise .databaseError else pure ()

/-- The exception handling of `__exit__`. The value tells whether an exception is swallowed, and
what commit, notices and cancel raise is logged only. -/
def exit (excType : Option Error) : Session D → Session D × Bool := fun s =>
  match excType with
  | none =>
    let (s, _) := (do
      commit b
      notices b) s
    (putconn s, true)
  | some _ =>
    let (s, _) := cancel b s
    (putconn s, false)

def withBlock (body : Action (Session D) Error Unit) (db : D) : Session D × Except Error Unit :=
  match body (getconn db) with
  | (s, .ok ()) => ((exit b none s).1, .ok ())
  | (s, .error e) =>
    let (s, swallowed) := exit b (some e) s
    (s, if swallowed then .ok () else .error e)

end Model

section Contract
variable {D : Type} (b : Behaviour) (body : Action (Session D) Error Unit) (db : D)

/-- A completed block is durable, an aborted one has no effect but what it has committed itself. -/
structure Contract : Prop where
  durable : (withBlock b body db).2 = .ok () →
    (withBlock b body db).1.committed = (body (getconn db)).1.transaction
  aborted : ∀ e, (body (getconn db)).2 = .error e → (withBlock b body db).2 = .error e ∧
    (withBlock b body db).1.committed = (body (getconn db)).1.committed
  returned : (withBlock b body db).1.inPool = true

/-- The commit of a completed body is carried out, unless there is nothing to commit. -/
def CommitCarriedOut : Prop :=
  (body (getconn db)).2 = .ok () →
    (body (getconn db)).1.transaction = (body (getconn db)).1.committed ∨
      (body (getconn db)).1.failed = false ∧ (b.commitRaises = true → b.commitReached = true)

end Contract

section Exit
variable {D : Type} {b : Behaviour} {body : Action (Session D) Error Unit} {db : D}
  {s : Session D} {e : Error}

theorem withBlock_of_error (h : body (getconn db) = (s, .error e)) :
    withBlock b body db = (putconn s, .error e) := by
  have hcancel : (cancel b s).1 = s := by
    unfold cancel
    split_ifs <;> rfl
  simp only [withBlock, h, exit, hcancel, Bool.false_eq_true, if_false]

def committedBy (b : Behaviour) (s : Session D) : D :=
  if s.failed = false ∧ (b.commitRaises = true → b.commitReached = true) then s.transaction
  else s.committed

theorem committed_commit (s : Session D) : (commit b s).1.committed = committedBy b s := by
  unfold commit committedBy Session.commit
  cases s.failed <;> cases b.commitRaises <;> cases b.commitReached <;> rfl

/-- The notices leave the connection as it is, whether they are read or not. -/
theorem committed_commit_notices (s : Session D) :
    ((do
      commit b
      notices b : Action (Session D) Error Unit) s).1.committed = committedBy b s := by
  have hnotices : ∀ s' : Session D, (notices b s').1 = s' := by
    intro s'
    unfold notices
    split_ifs <;> rfl
  rw [Action.bind_apply, ← committed_commit]
  rcases commit b s with ⟨s', e | ⟨⟩⟩
  · rfl
  · rw [hnotices]

theorem withBlock_of_ok (h : body (getconn db) = (s, .ok ())) :
    withBlock b body db = (⟨committedBy b s, committedBy b s, false, true⟩, .ok ()) := by
  simp only [withBlock, h, exit, putconn, committed_commit_notices]

theorem contract_of_error (h : body (getconn db) = (s, .error e)) : Contract b body db := by
  have hblock := withBlock_of_error (b := b) h
  constructor
  · intro hok
    rw [hblock] at hok
    cases hok
  · intro e' he'
    rw [h] at he' ⊢
    cases he'
    rw [hblock]
    exact ⟨rfl, rfl⟩
  · rw [hblock]
    rfl

/-- The block keeps its promise exactly when the commit of a completed body is carried out. -/
theorem contract_iff (b : Behaviour) (body : Action (Session D) Error Unit) (db : D) :
    Contract b body db ↔ CommitCarriedOut b body db := by
  unfold CommitCarriedOut
  rcases h : body (getconn db) with ⟨s, e | ⟨⟩⟩
  · have hcontract : Contract b body db := contract_of_error h
    simp [hcontract]
  · have hblock := withBlock_of_ok (b := b) h
    have hdurable : committedBy b s = s.transaction ↔ s.transaction = s.committed ∨
        s.failed = false ∧ (b.commitRaises = true → b.commitReached = true) := by
      unfold committedBy
      split_ifs with hcarried
      · exact iff_of_true rfl (.inr hcarried)
      · rw [or_iff_left hcarried, eq_comm]
    constructor
    · intro hcontract _
      have hcommitted := hcontract.durable (by rw [hblock])
      rw [hblock, h] at hcommitted
      exact hdurable.mp hcommitted
    · intro hcarried
      refine ⟨fun _ => ?_, fun e he => ?_, by rw [hblock]⟩
      · rw [hblock, h]
        exact hdurable.mpr (hcarried rfl)
      · rw [h] at he
        cases he

def lostAtCommit : Behaviour := ⟨true, false, false, false⟩

def write (d : D) : Action (Session D) Error Unit := .modify fun s => { s with transaction := d }

/-- The block goes on as if the value was written, and it is not. -/
theorem not_contract_lostAtCommit : ¬ Contract lostAtCommit (write 1) 0 ∧
    withBlock lostAtCommit (write 1) 0 = (⟨0, 0, false, true⟩, .ok ()) := by
  constructor
  · intro hcontract
    have hcommitted := hcontract.durable rfl
    exact absurd hcommitted (by decide)
  · rfl

end Exit

section Reliable

def reliable : Behaviour := ⟨false, false, false, false⟩

def ofStatements (statements : Statements Unit) : Action (Session Database) Error Unit := fun s =>
  let (conn, result) := statements ⟨s.transaction, s.failed⟩
  ({ s with transaction := conn.db, failed := conn.failed }, result)

/-- With a reliable connection a block is the transaction that the other models use. -/
theorem withBlock_reliable (statements : Statements Unit) (w : World) :
    ((withDBConn statements w).1.db, (withDBConn statements w).2) =
      ((withBlock reliable (ofStatements statements) w.db).1.committed,
        (withBlock reliable (ofStatements statements) w.db).2) := by
  rcases h : statements ⟨w.db, false⟩ with ⟨conn, e | ⟨⟩⟩
  · have hbody : ofStatements statements (getconn w.db) =
        (⟨w.db, conn.db, conn.failed, false⟩, .error e) := by
      simp only [ofStatements, getconn, h]
    rw [withBlock_of_error hbody]
    simp only [withDBConn, h, putconn]
  · have hbody : ofStatements statements (getconn w.db) =
        (⟨w.db, conn.db, conn.failed, false⟩, .ok ()) := by
      simp only [ofStatements, getconn, h]
    have hcommit : conn.commit w.db =
        committedBy reliable ⟨w.db, conn.db, conn.failed, false⟩ := by
      unfold Connection.commit committedBy
      cases conn.failed <;> rfl
    rw [withBlock_of_ok hbody, ← hcommit]
    simp only [withDBConn, h]

end Reliable
end EntityService.DBConn
