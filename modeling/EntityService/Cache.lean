import EntityService.Basic

/-! The hash that Redis keeps for a run: its state and its progress. -/
namespace EntityService.Cache

/-- The states that are stored. A run without one is missing. -/
inductive RunState
  | active | complete | deleted
deriving DecidableEq, Repr

structure RunHash where
  state : Option RunState
  comparisons : Option ℕ
  candidates : Option ℕ
deriving DecidableEq, Repr

def isRunMissing (hash : RunHash) : Bool := hash.state = none

def setRunStateActive (hash : RunHash) : RunHash := { hash with state := some .active }

def setRunStateComplete (hash : RunHash) : RunHash := { hash with state := some .complete }

def setRunStateDeleted (hash : RunHash) : RunHash := { hash with state := some .deleted }

/-- Add to both counters in one transaction, or to none when nothing was compared. -/
def saveCurrentProgress (comparisons candidatePairs : ℕ) (hash : RunHash) : RunHash :=
  if 0 < comparisons then
    { hash with
      comparisons := some (hash.comparisons.getD 0 + comparisons)
      candidates := some (hash.candidates.getD 0 + candidatePairs) }
  else hash

def getCandidateCountForRun (hash : RunHash) : Option ℕ := hash.candidates

def clearProgress (hash : RunHash) : RunHash :=
  { hash with comparisons := none, candidates := none }

section Progress
variable {comparisons candidatePairs : ℕ}

/-- A comparison that finds candidate pairs has compared something. -/
theorem saveCurrentProgress_counts (h : comparisons = 0 → candidatePairs = 0) (hash : RunHash) :
    (saveCurrentProgress comparisons candidatePairs hash).comparisons.getD 0 =
        hash.comparisons.getD 0 + comparisons ∧
      (saveCurrentProgress comparisons candidatePairs hash).candidates.getD 0 =
        hash.candidates.getD 0 + candidatePairs := by
  unfold saveCurrentProgress
  split_ifs with hpos
  · exact ⟨rfl, rfl⟩
  · have h0 : comparisons = 0 := Nat.eq_zero_of_not_pos hpos
    simp [h0, h h0]

end Progress
end EntityService.Cache
