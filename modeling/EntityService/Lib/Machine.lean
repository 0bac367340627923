import Mathlib.Tactic

/-! A machine that takes its steps alone. A step may emit values, and a state without a step is
final. -/
namespace EntityService.Lib
variable {σ α : Type*}

/-- The steps from a state to another one, with the values that they emit. -/
inductive Steps (next : σ → Option (σ × List α)) : σ → σ → List α → Prop
  | refl (s : σ) : Steps next s s []
  | step {s s' s'' : σ} {emitted rest : List α} (h : next s = some (s', emitted))
      (hrest : Steps next s' s'' rest) : Steps next s s'' (emitted ++ rest)

namespace Steps
variable {next : σ → Option (σ × List α)} {s s' s'' : σ} {emitted rest : List α}

theorem trans (h : Steps next s s' emitted) (h' : Steps next s' s'' rest) :
    Steps next s s'' (emitted ++ rest) := by
  induction h with
  | refl => exact h'
  | step hnext _ ih =>
    rw [List.append_assoc]
    exact .step hnext (ih h')

/-- A step that emits nothing. -/
theorem silent (h : next s = some (s', [])) (hrest : Steps next s' s'' rest) :
    Steps next s s'' rest := .step h hrest

/-- What every step keeps holds of every state on the way. -/
theorem invariant {I : σ → Prop} (hstep : ∀ s s' emitted, I s → next s = some (s', emitted) → I s')
    (h : Steps next s s' emitted) (hinit : I s) : I s' := by
  induction h with
  | refl => exact hinit
  | step hnext _ ih => exact ih (hstep _ _ _ hinit hnext)

/-- A final state is reached in one way only, as the steps are determined. -/
theorem unique (h : Steps next s s' emitted) (h' : Steps next s s'' rest)
    (hfinal : next s' = none) (hfinal' : next s'' = none) : s' = s'' ∧ emitted = rest := by
  induction h generalizing rest with
  | refl =>
    cases h' with
    | refl => exact ⟨rfl, rfl⟩
    | step hnext _ => simp [hfinal] at hnext
  | step hnext _ ih =>
    cases h' with
    | refl => simp [hfinal'] at hnext
    | step hnext' hrest' =>
      have he := hnext.symm.trans hnext'
      simp only [Option.some.injEq, Prod.mk.injEq] at he
      obtain ⟨rfl, rfl⟩ := he
      obtain ⟨hs, hrest⟩ := ih hrest' hfinal
      exact ⟨hs, congrArg _ hrest⟩

end Steps
end EntityService.Lib
