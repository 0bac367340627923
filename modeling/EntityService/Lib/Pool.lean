import Mathlib.Algebra.BigOperators.Group.List.Basic
import Mathlib.Tactic

/-! Processes that share a state and take their steps in any order. A step is atomic: it reads
and writes the shared state, moves the process on and may start new processes. -/
namespace EntityService.Lib

/-- The shared state and the processes, those that have ended included. -/
structure Pool (σ τ : Type) where
  shared : σ
  processes : List τ
deriving DecidableEq

/-- What a process does next, if it can take a step: the shared state, the process and the
processes it starts. The action resolves what the process leaves open. -/
abbrev Program (σ τ α : Type) := σ → τ → α → Option (σ × τ × List τ)

/-- The steps of a program that satisfy a condition. -/
def Program.restrict {σ τ α : Type} (program : Program σ τ α) (ok : σ → τ → α → Bool) :
    Program σ τ α := fun s t a => if ok s t a then program s t a else none

theorem Program.restrict_eq_some {σ τ α : Type} {program : Program σ τ α} {ok : σ → τ → α → Bool}
    {s : σ} {t : τ} {a : α} {r : σ × τ × List τ} :
    program.restrict ok s t a = some r ↔ ok s t a = true ∧ program s t a = some r := by
  unfold Program.restrict
  split_ifs with h
  · simp [h]
  · simp [h]

namespace Pool
variable {σ τ α : Type} {program : Program σ τ α} {p p' : Pool σ τ}

/-- The process at an index takes a step. -/
def step (program : Program σ τ α) (p : Pool σ τ) (i : ℕ) (a : α) : Option (Pool σ τ) := do
  let t ← p.processes[i]?
  let (shared, t', started) ← program p.shared t a
  return ⟨shared, p.processes.set i t' ++ started⟩

/-- The processes take steps by a schedule. -/
def run (program : Program σ τ α) (p : Pool σ τ) : List (ℕ × α) → Option (Pool σ τ)
  | [] => some p
  | (i, a) :: schedule => (p.step program i a).bind fun p' => p'.run program schedule

/-- A pool that some schedule leads to. -/
inductive Reaches (program : Program σ τ α) (p : Pool σ τ) : Pool σ τ → Prop
  | refl : Reaches program p p
  | step {p' p'' : Pool σ τ} {i : ℕ} {a : α} (h : Reaches program p p')
      (hstep : p'.step program i a = some p'') : Reaches program p p''

/-- A step replaces one process and appends the processes it starts. -/
theorem step_eq_some {i : ℕ} {a : α} : p.step program i a = some p' ↔
    ∃ before t after shared t' started, p.processes = before ++ t :: after ∧ before.length = i ∧
      program p.shared t a = some (shared, t', started) ∧
      p' = ⟨shared, before ++ t' :: after ++ started⟩ := by
  constructor
  · intro h
    simp only [step, Option.bind_eq_bind, Option.bind_eq_some_iff, Option.pure_def,
      Option.some.injEq] at h
    obtain ⟨t, ht, ⟨shared, t', started⟩, hprogram, rfl⟩ := h
    obtain ⟨hi, rfl⟩ := List.getElem?_eq_some_iff.mp ht
    obtain ⟨before, after, hlist, hlen, hset⟩ := List.exists_of_set hi
    exact ⟨before, _, after, shared, t', started, hlist, hlen, hprogram, by rw [hset]⟩
  · rintro ⟨before, t, after, shared, t', started, hlist, rfl, hprogram, rfl⟩
    simp [step, hlist, hprogram]

theorem reaches_of_run {schedule : List (ℕ × α)} (h : p.run program schedule = some p') :
    Reaches program p p' := by
  have htrans : ∀ schedule (q : Pool σ τ), Reaches program p q →
      q.run program schedule = some p' → Reaches program p p' := by
    intro schedule
    induction schedule with
    | nil =>
      intro q hq h
      obtain rfl := Option.some.inj h
      exact hq
    | cons e schedule ih =>
      intro q hq h
      obtain ⟨q', hstep, hrun⟩ := Option.bind_eq_some_iff.mp h
      exact ih q' (hq.step hstep) hrun
  exact htrans schedule p .refl h

/-- What the program keeps, whatever process takes the step, holds of every reachable pool. -/
theorem Reaches.invariant {I : Pool σ τ → Prop} (hinit : I p)
    (hstep : ∀ s before t after a s' t' started, Reaches program p ⟨s, before ++ t :: after⟩ →
      I ⟨s, before ++ t :: after⟩ → program s t a = some (s', t', started) →
      I ⟨s', before ++ t' :: after ++ started⟩)
    (h : Reaches program p p') : I p' := by
  induction h with
  | refl => exact hinit
  | @step q q' i a hq hqstep ih =>
    obtain ⟨before, t, after, s', t', started, hlist, -, hprogram, rfl⟩ := step_eq_some.mp hqstep
    obtain ⟨s, processes⟩ := q
    obtain rfl : processes = before ++ t :: after := hlist
    exact hstep s before t after a s' t' started hq ih hprogram

theorem Reaches.trans {p'' : Pool σ τ} (h : Reaches program p p') (h' : Reaches program p' p'') :
    Reaches program p p'' := by
  induction h' with
  | refl => exact h
  | step _ hstep ih => exact ih.step hstep

theorem Reaches.of_restrict {ok : σ → τ → α → Bool}
    (h : Reaches (program.restrict ok) p p') : Reaches program p p' := by
  induction h with
  | refl => exact .refl
  | @step q q' i a _ hstep ih =>
    obtain ⟨before, t, after, s', t', started, hlist, hi, hprogram, rfl⟩ := step_eq_some.mp hstep
    exact ih.step (step_eq_some.mpr ⟨before, t, after, s', t', started, hlist, hi,
      (Program.restrict_eq_some.mp hprogram).2, rfl⟩)

/-- What a program does that only reads a part of the shared state, seen from that part. -/
theorem Reaches.map_shared {σ' : Type} {program' : Program σ' τ α} (f : σ → σ')
    (hf : ∀ s t a s' t' started, program s t a = some (s', t', started) →
      program' (f s) t a = some (f s', t', started)) (h : Reaches program p p') :
    Reaches program' ⟨f p.shared, p.processes⟩ ⟨f p'.shared, p'.processes⟩ := by
  induction h with
  | refl => exact .refl
  | @step q q' i a _ hstep ih =>
    obtain ⟨before, t, after, s', t', started, hlist, hi, hprogram, rfl⟩ := step_eq_some.mp hstep
    exact ih.step (step_eq_some.mpr ⟨before, t, after, f s', t', started, hlist, hi,
      hf _ _ _ _ _ _ hprogram, rfl⟩)

section Condition
variable {ok : Pool σ τ → τ → α → Bool}

/-- A step that satisfies a condition on the pool before it, other processes included. -/
def stepIf (program : Program σ τ α) (ok : Pool σ τ → τ → α → Bool) (p : Pool σ τ) (i : ℕ) (a : α) :
    Option (Pool σ τ) :=
  if p.processes[i]?.all fun t => ok p t a then p.step program i a else none

def runIf (program : Program σ τ α) (ok : Pool σ τ → τ → α → Bool) (p : Pool σ τ) :
    List (ℕ × α) → Option (Pool σ τ)
  | [] => some p
  | (i, a) :: schedule => (p.stepIf program ok i a).bind fun p' => p'.runIf program ok schedule

/-- A pool that some schedule leads to, of which every step satisfies the condition. -/
inductive ReachesIf (program : Program σ τ α) (ok : Pool σ τ → τ → α → Bool) (p : Pool σ τ) :
    Pool σ τ → Prop
  | refl : ReachesIf program ok p p
  | step {p' p'' : Pool σ τ} {i : ℕ} {a : α} (h : ReachesIf program ok p p')
      (hstep : p'.stepIf program ok i a = some p'') : ReachesIf program ok p p''

theorem stepIf_eq_some {i : ℕ} {a : α} : p.stepIf program ok i a = some p' ↔
    ∃ before t after shared t' started, p.processes = before ++ t :: after ∧
      before.length = i ∧ ok p t a = true ∧ program p.shared t a = some (shared, t', started) ∧
      p' = ⟨shared, before ++ t' :: after ++ started⟩ := by
  unfold stepIf
  constructor
  · intro h
    split_ifs at h with hall
    obtain ⟨before, t, after, shared, t', started, hlist, hi, hprogram, rfl⟩ := step_eq_some.mp h
    have hok : ok p t a = true := by simpa [hlist, ← hi] using hall
    exact ⟨before, t, after, shared, t', started, hlist, hi, hok, hprogram, rfl⟩
  · rintro ⟨before, t, after, shared, t', started, hlist, rfl, hok, hprogram, rfl⟩
    have hall : (p.processes[before.length]?.all fun t => ok p t a) = true := by
      simpa [hlist] using hok
    rw [if_pos hall]
    exact step_eq_some.mpr ⟨before, t, after, shared, t', started, hlist, rfl, hprogram, rfl⟩

theorem reachesIf_of_runIf {schedule : List (ℕ × α)}
    (h : p.runIf program ok schedule = some p') : ReachesIf program ok p p' := by
  have htrans : ∀ schedule (q : Pool σ τ), ReachesIf program ok p q →
      q.runIf program ok schedule = some p' → ReachesIf program ok p p' := by
    intro schedule
    induction schedule with
    | nil =>
      intro q hq h
      obtain rfl := Option.some.inj h
      exact hq
    | cons e schedule ih =>
      intro q hq h
      obtain ⟨q', hstep, hrun⟩ := Option.bind_eq_some_iff.mp h
      exact ih q' (hq.step hstep) hrun
  exact htrans schedule p .refl h

/-- What every step keeps that satisfies the condition holds of every pool they lead to. -/
theorem ReachesIf.invariant {I : Pool σ τ → Prop} (hinit : I p)
    (hstep : ∀ s before t after a s' t' started,
      ok ⟨s, before ++ t :: after⟩ t a = true → I ⟨s, before ++ t :: after⟩ →
      program s t a = some (s', t', started) → I ⟨s', before ++ t' :: after ++ started⟩)
    (h : ReachesIf program ok p p') : I p' := by
  induction h with
  | refl => exact hinit
  | @step q q' i a _ hqstep ih =>
    obtain ⟨before, t, after, s', t', started, hlist, -, hok, hprogram, rfl⟩ :=
      stepIf_eq_some.mp hqstep
    obtain ⟨s, processes⟩ := q
    obtain rfl : processes = before ++ t :: after := hlist
    exact hstep s before t after a s' t' started hok ih hprogram

end Condition

section Total

/-- The sum of a measure over the processes. -/
def total (f : τ → ℕ) (p : Pool σ τ) : ℕ := (p.processes.map f).sum

variable {f g : τ → ℕ}

/-- A step changes a total by the process that takes it and the processes it starts. -/
theorem total_step (f : τ → ℕ) (s s' : σ) (before after started : List τ) (t t' : τ) :
    total f ⟨s', before ++ t' :: after ++ started⟩ + f t =
      total f (⟨s, before ++ t :: after⟩ : Pool σ τ) + f t' + (started.map f).sum := by
  simp only [total, List.map_append, List.map_cons, List.sum_append, List.sum_cons]
  omega

theorem total_eq_zero : total f p = 0 ↔ ∀ t ∈ p.processes, f t = 0 := by
  simp [total, List.sum_eq_zero_iff]

theorem total_pos : 0 < total f p ↔ ∃ t ∈ p.processes, 0 < f t := by
  rw [Nat.pos_iff_ne_zero, Ne, total_eq_zero]
  push Not
  exact exists_congr fun t => and_congr_right fun _ => Nat.pos_iff_ne_zero.symm

theorem le_total {t : τ} (h : t ∈ p.processes) : f t ≤ total f p :=
  List.single_le_sum (fun _ _ => Nat.zero_le _) _ (List.mem_map_of_mem h)

/-- Two processes count separately. -/
theorem add_le_total {s : σ} {before after : List τ} {t u : τ} (h : u ∈ before ++ after) :
    f t + f u ≤ total f ⟨s, before ++ t :: after⟩ := by
  have hu : f u ≤ ((before ++ after).map f).sum :=
    List.single_le_sum (fun _ _ => Nat.zero_le _) _ (List.mem_map_of_mem h)
  simp only [List.map_append, List.sum_append] at hu
  simp only [total, List.map_append, List.map_cons, List.sum_append, List.sum_cons]
  omega

theorem total_mono (h : ∀ t ∈ p.processes, f t ≤ g t) : total f p ≤ total g p :=
  List.sum_le_sum h

theorem total_congr (h : ∀ t ∈ p.processes, f t = g t) : total f p = total g p :=
  congrArg List.sum (List.map_congr_left h)

end Total

/-- A property of every process, kept by the process that takes a step. -/
theorem forall_step {P Q : τ → Prop} {before after started : List τ} {t t' : τ}
    (h : ∀ u ∈ before ++ t :: after, P u) (hother : ∀ u ∈ before ++ after, P u → Q u)
    (hself : P t → Q t')
    (hstarted : ∀ u ∈ started, Q u) : ∀ u ∈ before ++ t' :: after ++ started, Q u := by
  simp only [List.mem_append, List.mem_cons] at h ⊢
  rintro u ((hu | rfl | hu) | hu)
  · exact hother u (List.mem_append_left after hu) (h u (.inl hu))
  · exact hself (h t (.inr (.inl rfl)))
  · exact hother u (List.mem_append_right before hu) (h u (.inr (.inr hu)))
  · exact hstarted u hu

/-- What a step does to the process at an index. -/
theorem getElem?_step (t' : τ) (started : List τ) {before after : List τ} {t u : τ} {i : ℕ}
    (h : (before ++ t :: after)[i]? = some u) :
    (u = t ∧ (before ++ t' :: after ++ started)[i]? = some t') ∨
      u ∈ before ++ after ∧ (before ++ t' :: after ++ started)[i]? = some u := by
  have hlt : i < (before ++ t :: after).length := (List.getElem?_eq_some_iff.mp h).1
  have hsame : (before ++ t' :: after ++ started)[i]? = (before ++ t' :: after)[i]? :=
    List.getElem?_append_left (by simpa using hlt)
  rw [hsame]
  rcases lt_trichotomy i before.length with hi | rfl | hi
  · rw [List.getElem?_append_left hi] at h ⊢
    exact .inr ⟨List.mem_append_left after (List.mem_of_getElem? h), h⟩
  · simp only [List.getElem?_append_right le_rfl, Nat.sub_self, List.getElem?_cons_zero,
      Option.some.injEq] at h ⊢
    exact .inl ⟨h.symm, trivial⟩
  · obtain ⟨k, rfl⟩ := Nat.exists_eq_add_of_lt hi
    have hk : before.length + k + 1 - before.length = k + 1 := by omega
    rw [List.getElem?_append_right (by omega), hk, List.getElem?_cons_succ] at h ⊢
    exact .inr ⟨List.mem_append_right before (List.mem_of_getElem? h), h⟩

end Pool
end EntityService.Lib
