import Mathlib.Data.List.Forall2
import Mathlib.Tactic

/-! Traversals of lists in a monad with failure, and the inversion of a computation that
succeeded. -/
namespace EntityService.Lib
universe u v w

section Lawful
variable {m : Type u → Type v} [Monad m] [LawfulMonad m] {α : Type w} {β : Type u}

/-- A traversal none of whose steps has an effect is a plain map. -/
theorem mapM_eq_pure_map {f : α → m β} {g : α → β} {l : List α}
    (h : ∀ a ∈ l, f a = pure (g a)) : l.mapM f = pure (l.map g) := by
  induction l with
  | nil => simp
  | cons a l ih =>
    have hl := ih fun b hb => h b (List.mem_cons_of_mem a hb)
    simp [h a List.mem_cons_self, hl]

theorem mapM_congr_left {f g : α → m β} {l : List α} (h : ∀ a ∈ l, f a = g a) :
    l.mapM f = l.mapM g := by
  induction l with
  | nil => simp
  | cons a l ih =>
    have hl := ih fun b hb => h b (List.mem_cons_of_mem a hb)
    simp [h a List.mem_cons_self, hl]

end Lawful

section Except
variable {ε : Type u} {α β : Type v}

/-- A sequence of two computations succeeds when both do. -/
theorem bind_eq_ok {x : Except ε α} {f : α → Except ε β} {b : β} :
    (x >>= f) = .ok b ↔ ∃ a, x = .ok a ∧ f a = .ok b := by
  cases x with
  | error e => simp [Bind.bind, Except.bind]
  | ok a => simp [Bind.bind, Except.bind]

@[simp] theorem pure_eq_ok (a : α) : (pure a : Except ε α) = .ok a := rfl

@[simp] theorem ok_bind (a : α) (f : α → Except ε β) : (Except.ok a >>= f) = f a := rfl

@[simp] theorem error_bind (e : ε) (f : α → Except ε β) :
    (Except.error e >>= f) = .error e := rfl

/-- Raise an exception unless the condition holds. -/
def ensure (c : Prop) [Decidable c] (e : ε) : Except ε Unit := if c then .ok () else .error e

@[simp] theorem ensure_eq_ok {c : Prop} [Decidable c] {e : ε} {a : Unit} :
    ensure c e = .ok a ↔ c := by
  unfold ensure
  split_ifs with h <;> simp [h]

/-- The value of an option, or an exception. -/
def orRaise (o : Option α) (e : ε) : Except ε α := o.elim (.error e) .ok

@[simp] theorem orRaise_eq_ok {o : Option α} {e : ε} {a : α} :
    orRaise o e = .ok a ↔ o = some a := by
  cases o <;> simp [orRaise]

/-- A traversal succeeds when every step does. -/
theorem mapM_eq_ok {γ : Type w} {f : γ → Except ε β} {l : List γ} {bs : List β} :
    l.mapM f = .ok bs ↔ List.Forall₂ (fun a b => f a = .ok b) l bs := by
  induction l generalizing bs with
  | nil =>
    rw [List.mapM_nil, List.forall₂_nil_left_iff]
    exact ⟨fun h => (Except.ok.inj h).symm, fun h => congrArg Except.ok h.symm⟩
  | cons a l ih =>
    rw [List.mapM_cons, bind_eq_ok, List.forall₂_cons_left_iff]
    constructor
    · rintro ⟨b, hb, h⟩
      obtain ⟨bs', hbs, h⟩ := bind_eq_ok.mp h
      exact ⟨b, bs', hb, ih.mp hbs, (Except.ok.inj h).symm⟩
    · rintro ⟨b, bs', hb, hbs, rfl⟩
      exact ⟨b, hb, bind_eq_ok.mpr ⟨bs', ih.mpr hbs, rfl⟩⟩

/-- Each result of a traversal comes from an element, and each element has a result. -/
theorem mapM_mem {γ : Type w} {f : γ → Except ε β} {l : List γ} {bs : List β}
    (h : l.mapM f = .ok bs) :
    (∀ b ∈ bs, ∃ a ∈ l, f a = .ok b) ∧ ∀ a ∈ l, ∃ b ∈ bs, f a = .ok b := by
  have hall := mapM_eq_ok.mp h
  clear h
  induction hall with
  | nil => simp
  | @cons a b l bs hab _ ih =>
    constructor
    · refine List.forall_mem_cons.mpr ⟨⟨a, List.mem_cons_self, hab⟩, fun b' hb' => ?_⟩
      obtain ⟨a', ha', he⟩ := ih.1 b' hb'
      exact ⟨a', List.mem_cons_of_mem a ha', he⟩
    · refine List.forall_mem_cons.mpr ⟨⟨b, List.mem_cons_self, hab⟩, fun a' ha' => ?_⟩
      obtain ⟨b', hb', he⟩ := ih.2 a' ha'
      exact ⟨b', List.mem_cons_of_mem b hb', he⟩

/-- The result at a position comes from the element at that position. -/
theorem mapM_getElem? {γ : Type w} {f : γ → Except ε β} {l : List γ} {bs : List β}
    (h : l.mapM f = .ok bs) {i : ℕ} {b : β} (hb : bs[i]? = some b) :
    ∃ a, l[i]? = some a ∧ f a = .ok b := by
  have hall := mapM_eq_ok.mp h
  clear h
  induction hall generalizing i with
  | nil => cases hb
  | @cons a b' l bs hab _ ih =>
    cases i with
    | zero =>
      cases hb
      exact ⟨a, rfl, hab⟩
    | succ i => exact ih hb

theorem mapM_getElem?_of_mem {γ : Type w} {f : γ → Except ε β} {l : List γ} {bs : List β}
    (h : l.mapM f = .ok bs) {i : ℕ} {a : γ} (ha : l[i]? = some a) :
    ∃ b, bs[i]? = some b ∧ f a = .ok b := by
  have hlen := (mapM_eq_ok.mp h).length_eq
  obtain ⟨hi, -⟩ := List.getElem?_eq_some_iff.mp ha
  have hb : bs[i]? = some bs[i] := List.getElem?_eq_getElem (hlen ▸ hi)
  obtain ⟨a', ha', he⟩ := mapM_getElem? h hb
  obtain rfl := Option.some.inj (ha.symm.trans ha')
  exact ⟨_, hb, he⟩

theorem mapM_succeeds {γ : Type w} {f : γ → Except ε β} {l : List γ}
    (h : ∀ a ∈ l, ∃ b, f a = .ok b) : ∃ bs, l.mapM f = .ok bs := by
  induction l with
  | nil => exact ⟨[], rfl⟩
  | cons a l ih =>
    obtain ⟨⟨b, hb⟩, hl⟩ := List.forall_mem_cons.mp h
    obtain ⟨bs, hbs⟩ := ih hl
    exact ⟨b :: bs, by rw [List.mapM_cons, hb, ok_bind, hbs]; rfl⟩

theorem mapM_eq_error {γ : Type w} {f : γ → Except ε β} {l : List γ} {e : ε}
    (h : l.mapM f = .error e) : ∃ a ∈ l, f a = .error e := by
  induction l with
  | nil => cases h
  | cons a l ih =>
    rw [List.mapM_cons] at h
    cases ha : f a with
    | error e' =>
      rw [ha] at h
      cases h
      exact ⟨a, List.mem_cons_self, ha⟩
    | ok b =>
      cases hl : l.mapM f with
      | ok bs =>
        rw [ha, hl] at h
        cases h
      | error e' =>
        rw [ha, hl] at h
        cases h
        obtain ⟨a', ha', he⟩ := ih hl
        exact ⟨a', List.mem_cons_of_mem _ ha', he⟩

theorem mapM_eq_ok_map {γ : Type w} {f : γ → Except ε β} {c : γ → Prop} {g : γ → β}
    (h : ∀ a b, f a = .ok b ↔ c a ∧ b = g a) {l : List γ} {bs : List β} :
    l.mapM f = .ok bs ↔ (∀ a ∈ l, c a) ∧ bs = l.map g := by
  rw [mapM_eq_ok]
  induction l generalizing bs with
  | nil => simp
  | cons a l ih =>
    rw [List.forall₂_cons_left_iff, List.forall_mem_cons, List.map_cons]
    constructor
    · rintro ⟨b, bs', hb, hbs, rfl⟩
      obtain ⟨hc, rfl⟩ := (h a b).mp hb
      obtain ⟨hl, rfl⟩ := ih.mp hbs
      exact ⟨⟨hc, hl⟩, rfl⟩
    · rintro ⟨⟨hc, hl⟩, rfl⟩
      exact ⟨g a, l.map g, (h a _).mpr ⟨hc, rfl⟩, ih.mpr ⟨hl, rfl⟩, rfl⟩

/-- A traversal that numbers what it reads. -/
theorem mapM_zipIdx_eq_ok {γ : Type w} {δ : Type v} {f : γ → Except ε δ} {h : ℕ → δ → Except ε β}
    {c : ℕ → δ → Prop} {g : ℕ → δ → β} (hh : ∀ i d b, h i d = .ok b ↔ c i d ∧ b = g i d)
    {l : List γ} {k : ℕ} {bs : List β} :
    ((l.zipIdx k).mapM fun p => f p.1 >>= h p.2) = .ok bs ↔
      ∃ ds, l.mapM f = .ok ds ∧ (∀ p ∈ ds.zipIdx k, c p.2 p.1) ∧
        bs = (ds.zipIdx k).map fun p => g p.2 p.1 := by
  induction l generalizing k bs with
  | nil => simp
  | cons a l ih =>
    simp only [List.zipIdx_cons, List.mapM_cons, bind_eq_ok, hh, ih, pure_eq_ok, Except.ok.injEq]
    constructor
    · rintro ⟨_, ⟨d, hd, hc, rfl⟩, _, ⟨ds, hds, hcs, rfl⟩, rfl⟩
      exact ⟨d :: ds, ⟨d, hd, ds, hds, rfl⟩, List.forall_mem_cons.mpr ⟨hc, hcs⟩, rfl⟩
    · rintro ⟨_, ⟨d, hd, ds, hds, rfl⟩, hcs, rfl⟩
      obtain ⟨hc, hcs⟩ := List.forall_mem_cons.mp hcs
      exact ⟨_, ⟨d, hd, hc, rfl⟩, _, ⟨ds, hds, hcs, rfl⟩, rfl⟩

end Except

section Numbered
variable {α : Type u} {β : Type v}

theorem zip_range_eq_zipIdx (l : List α) (n : ℕ) :
    (List.range n).zip l = (l.take n).zipIdx.map Prod.swap := by
  refine List.ext_getElem? fun i => ?_
  rw [List.getElem?_map, List.getElem?_zipIdx, List.getElem?_take]
  by_cases hi : i < n
  · cases hl : l[i]? with
    | none => simpa [hi] using List.getElem?_eq_none_iff.mp hl
    | some a => simp [List.getElem?_zip_eq_some, hl, hi]
  · simp [hi]

theorem map_range_eq_zipIdx (f : ℕ → α) (h : ℕ → α → β) (n : ℕ) :
    (List.range n).map (fun i => h i (f i)) =
      ((List.range n).map f).zipIdx.map fun p => h p.2 p.1 := by
  refine List.ext_getElem (by simp) fun i hi hi' => ?_
  simp

end Numbered
/-- Each element of a list has a result among those of a traversal that succeeds. -/
theorem mapM_some_mem {α : Type u} {β : Type v} {f : α → Option β} {l : List α} {bs : List β}
    (h : l.mapM f = some bs) : ∀ a ∈ l, ∃ b ∈ bs, f a = some b := by
  induction l generalizing bs with
  | nil => simp
  | cons a l ih =>
    simp only [List.mapM_cons, Option.bind_eq_bind, Option.bind_eq_some_iff, Option.pure_def,
      Option.some.injEq] at h
    obtain ⟨b, hb, bs', hbs, rfl⟩ := h
    refine List.forall_mem_cons.mpr ⟨⟨b, List.mem_cons_self, hb⟩, fun a' ha' => ?_⟩
    obtain ⟨b', hb', he⟩ := ih hbs a' ha'
    exact ⟨b', List.mem_cons_of_mem b hb', he⟩

/-- The results of a traversal that succeeds are those of the elements. -/
theorem mem_of_mapM_eq_some {α : Type u} {β : Type v} {f : α → Option β} {l : List α} {bs : List β}
    (h : l.mapM f = some bs) {b : β} : b ∈ bs ↔ ∃ a ∈ l, f a = some b := by
  induction l generalizing bs with
  | nil =>
    have hbs : [] = bs := Option.some.inj h
    simp [← hbs]
  | cons a l ih =>
    simp only [List.mapM_cons, Option.bind_eq_bind, Option.bind_eq_some_iff, Option.pure_def,
      Option.some.injEq] at h
    obtain ⟨c, hc, cs, hcs, rfl⟩ := h
    have hrest := ih hcs
    have hhead : b = c ↔ f a = some b := by rw [hc, Option.some.injEq, eq_comm]
    simp only [List.mem_cons, hrest, hhead, exists_eq_or_imp]

/-- What is measured of the results of a traversal can be measured of the elements. -/
theorem map_of_mapM_eq_some {α : Type u} {β : Type v} {γ : Type w} {f : α → Option β} {g : β → γ}
    {h : α → γ} (hfg : ∀ a b, f a = some b → g b = h a) {l : List α} {bs : List β}
    (hbs : l.mapM f = some bs) : bs.map g = l.map h := by
  induction l generalizing bs with
  | nil =>
    obtain rfl : [] = bs := Option.some.inj hbs
    rfl
  | cons a l ih =>
    simp only [List.mapM_cons, Option.bind_eq_bind, Option.bind_eq_some_iff, Option.pure_def,
      Option.some.injEq] at hbs
    obtain ⟨b, hb, bs', hbs', rfl⟩ := hbs
    rw [List.map_cons, List.map_cons, hfg a b hb, ih hbs']

/-- A loop that may fail keeps what each of its steps keeps. -/
theorem foldlM_some_induction {α : Type u} {σ : Type v} {f : σ → α → Option σ} {p : σ → Prop}
    (hstep : ∀ s s' a, p s → f s a = some s' → p s') {l : List α} {s s' : σ} (hs : p s)
    (h : l.foldlM f s = some s') : p s' := by
  induction l generalizing s with
  | nil =>
    have heq : s = s' := Option.some.inj h
    exact heq ▸ hs
  | cons a l ih =>
    rw [List.foldlM_cons, Option.bind_eq_bind, Option.bind_eq_some_iff] at h
    obtain ⟨s'', hnext, hrest⟩ := h
    exact ih (hstep s s'' a hs hnext) hrest

end EntityService.Lib
