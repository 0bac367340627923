import Mathlib.Tactic

/-! Iterators that are resumed again and again. One that goes on forever has no list of its
values. -/
namespace EntityService.Lib
variable {σ α : Type*} (next : σ → Option (α × σ))

/-- The values of an iterator, when it is exhausted after fewer than `n` of them. -/
def exhaust : ℕ → σ → Option (List α)
  | 0, _ => none
  | n + 1, s =>
    match next s with
    | none => some []
    | some (a, s') => (exhaust n s').map (a :: ·)

variable {next}

theorem exhaust_of_none {s : σ} (h : next s = none) (n : ℕ) : exhaust next (n + 1) s = some [] := by
  simp only [exhaust, h]

theorem exhaust_of_some {s s' : σ} {a : α} (h : next s = some (a, s')) (n : ℕ) :
    exhaust next (n + 1) s = (exhaust next n s').map (a :: ·) := by
  simp only [exhaust, h]

/-- An iterator that stays where it yields another value is never exhausted. -/
theorem exhaust_eq_none {p : σ → Prop} (h : ∀ s, p s → ∃ a s', next s = some (a, s') ∧ p s')
    (n : ℕ) {s : σ} (hs : p s) : exhaust next n s = none := by
  induction n generalizing s with
  | zero => rfl
  | succ n ih =>
    obtain ⟨a, s', hnext, hs'⟩ := h s hs
    rw [exhaust_of_some hnext, ih hs', Option.map_none]

/-- One that yields a value is exhausted when it is from then on. -/
theorem exhaust_eq_none_of_next {s s' : σ} {a : α} (h : next s = some (a, s'))
    (hs' : ∀ n, exhaust next n s' = none) (n : ℕ) : exhaust next n s = none := by
  cases n with
  | zero => rfl
  | succ n => rw [exhaust_of_some h, hs', Option.map_none]

end EntityService.Lib
