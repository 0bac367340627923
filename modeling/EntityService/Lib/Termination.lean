import EntityService.Lib.Pool
import Mathlib.Logic.Hydra

/-! Programs of which every schedule ends. A step replaces one process by processes that are below
it in a well-founded relation, however many they are. -/
namespace EntityService.Lib
namespace Pool
variable {σ τ α : Type} {program : Program σ τ α} {r : τ → τ → Prop} {p p' : Pool σ τ}

/-- Some process takes a step. -/
def StepsTo (program : Program σ τ α) (p p' : Pool σ τ) : Prop :=
  ∃ i a, p.step program i a = some p'

/-- No process can take a step. -/
def Stopped (program : Program σ τ α) (p : Pool σ τ) : Prop := ∀ p', ¬ StepsTo program p p'

/-- After a step, the process and those that it starts are below the process before it. -/
def Descends (program : Program σ τ α) (r : τ → τ → Prop) : Prop :=
  ∀ s t a s' t' started, program s t a = some (s', t', started) → ∀ u ∈ t' :: started, r u t

theorem Descends.cutExpand (h : Descends program r) (hstep : StepsTo program p p') :
    Relation.CutExpand r (p'.processes : Multiset τ) (p.processes : Multiset τ) := by
  obtain ⟨i, a, hstep⟩ := hstep
  obtain ⟨before, t, after, s', t', started, hlist, -, hprogram, rfl⟩ := step_eq_some.mp hstep
  refine ⟨(t' :: started : List τ), t, fun u hu => h _ _ _ _ _ _ hprogram u (by simpa using hu), ?_⟩
  classical
  have hperm : (before ++ t' :: after ++ started ++ [t]).Perm
      (before ++ t :: after ++ t' :: started) := by
    refine List.perm_iff_count.mpr fun u => ?_
    simp only [List.count_append, List.count_cons, List.count_nil]
    omega
  rw [hlist]
  exact Multiset.coe_eq_coe.mpr hperm

/-- No schedule goes on for ever. -/
theorem Descends.wellFounded (h : Descends program r) (hr : WellFounded r) :
    WellFounded fun p' p => StepsTo program p p' := by
  have hcut := InvImage.wf (fun p : Pool σ τ => (p.processes : Multiset τ)) hr.cutExpand
  exact Subrelation.wf (fun hstep => h.cutExpand hstep) hcut

theorem not_stepsTo_forever (h : WellFounded fun p' p => StepsTo program p p')
    (pools : ℕ → Pool σ τ) : ¬ ∀ n, StepsTo program (pools n) (pools (n + 1)) := by
  intro hsteps
  obtain ⟨p, ⟨n, rfl⟩, hmin⟩ := h.has_min (Set.range pools) ⟨pools 0, 0, rfl⟩
  exact hmin (pools (n + 1)) ⟨n + 1, rfl⟩ (hsteps n)

/-- A schedule that goes on for ever takes steps that are not allowed again and again, if those that
are allowed come to an end. -/
theorem exists_not_allowed {ok : α → Bool}
    (h : WellFounded fun p' p => StepsTo (program.restrict fun _ _ a => ok a) p p')
    {pools : ℕ → Pool σ τ} {indices : ℕ → ℕ} {actions : ℕ → α}
    (hsteps : ∀ n, (pools n).step program (indices n) (actions n) = some (pools (n + 1))) (m : ℕ) :
    ∃ n ≥ m, ok (actions n) = false := by
  by_contra hnone
  push Not at hnone
  refine not_stepsTo_forever h (fun n => pools (m + n)) fun n =>
    ⟨indices (m + n), actions (m + n), ?_⟩
  obtain ⟨before, t, after, s', t', started, hlist, hi, hprogram, hpool⟩ :=
    step_eq_some.mp (hsteps (m + n))
  have hok : ok (actions (m + n)) = true := by
    simpa using hnone (m + n) (Nat.le_add_right m n)
  exact step_eq_some.mpr ⟨before, t, after, s', t', started, hlist, hi,
    Program.restrict_eq_some.mpr ⟨hok, hprogram⟩, hpool⟩

/-- Every schedule can be continued to its end. -/
theorem exists_stopped (h : WellFounded fun p' p => StepsTo program p p') (p : Pool σ τ) :
    ∃ p', Reaches program p p' ∧ Stopped program p' := by
  induction p using h.induction with
  | _ p ih =>
    by_cases hstopped : Stopped program p
    · exact ⟨p, .refl, hstopped⟩
    · obtain ⟨p', hstep⟩ := not_forall_not.mp hstopped
      obtain ⟨p'', hreaches, hstopped'⟩ := ih p' hstep
      obtain ⟨i, a, hstep⟩ := hstep
      exact ⟨p'', (Reaches.refl.step hstep).trans hreaches, hstopped'⟩

/-- A pool is stopped when none of its processes has a next step. -/
theorem stopped_iff : Stopped program p ↔ ∀ t ∈ p.processes, ∀ a, program p.shared t a = none := by
  constructor
  · intro h t ht a
    obtain ⟨before, after, hlist⟩ := List.append_of_mem ht
    cases hprogram : program p.shared t a with
    | none => rfl
    | some result =>
      obtain ⟨s', t', started⟩ := result
      exact absurd ⟨before.length, a, step_eq_some.mpr
        ⟨before, t, after, s', t', started, hlist, rfl, hprogram, rfl⟩⟩ (h _)
  · rintro h p' ⟨i, a, hstep⟩
    obtain ⟨before, t, after, s', t', started, hlist, -, hprogram, -⟩ := step_eq_some.mp hstep
    have hnone := h t (hlist ▸ List.mem_append_cons_self) a
    rw [hprogram] at hnone
    cases hnone

end Pool
end EntityService.Lib
