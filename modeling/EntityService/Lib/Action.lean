import EntityService.Lib.Monadic

/-! Actions on a state that may raise an exception. What was written before the exception
stays written, as with a database whose earlier transactions are committed. -/
namespace EntityService.Lib

/-- An action ends in a new state, with a value or with an exception. -/
def Action (σ ε α : Type) := σ → σ × Except ε α

namespace Action
variable {σ ε α β : Type}

instance : Monad (Action σ ε) where
  pure a := fun s => (s, .ok a)
  bind x f := fun s => match x s with
    | (s', .ok a) => f a s'
    | (s', .error e) => (s', .error e)

def raise (e : ε) : Action σ ε α := fun s => (s, .error e)

/-- A computation that does not touch the state. -/
def lift (x : Except ε α) : Action σ ε α := fun s => (s, x)

def get : Action σ ε σ := fun s => (s, .ok s)

def modify (f : σ → σ) : Action σ ε Unit := fun s => (f s, .ok ())

/-- A step that takes effect as a whole or, when it raises, not at all. -/
def atomic (f : σ → Except ε σ) : Action σ ε Unit := fun s => match f s with
  | .ok s' => (s', .ok ())
  | .error e => (s, .error e)

/-- Run the handler on the exception of an action. -/
def handle (x : Action σ ε α) (handler : ε → Action σ ε α) : Action σ ε α := fun s =>
  match x s with
  | (s', .ok a) => (s', .ok a)
  | (s', .error e) => handler e s'

@[simp] theorem pure_apply (a : α) (s : σ) : (pure a : Action σ ε α) s = (s, .ok a) := rfl

@[simp] theorem get_apply (s : σ) : (get : Action σ ε σ) s = (s, .ok s) := rfl

@[simp] theorem modify_apply (f : σ → σ) (s : σ) :
    (modify f : Action σ ε Unit) s = (f s, .ok ()) := rfl

@[simp] theorem lift_apply (x : Except ε α) (s : σ) : (lift x : Action σ ε α) s = (s, x) := rfl

@[simp] theorem raise_apply (e : ε) (s : σ) : (raise e : Action σ ε α) s = (s, .error e) := rfl

theorem bind_apply (x : Action σ ε α) (f : α → Action σ ε β) (s : σ) :
    (x >>= f) s = match x s with
      | (s', .ok a) => f a s'
      | (s', .error e) => (s', .error e) := rfl

theorem bind_of_ok {x : Action σ ε α} {f : α → Action σ ε β} {s s' : σ} {a : α}
    (h : x s = (s', .ok a)) : (x >>= f) s = f a s' := by
  rw [bind_apply, h]

theorem bind_of_error {x : Action σ ε α} {f : α → Action σ ε β} {s s' : σ} {e : ε}
    (h : x s = (s', .error e)) : (x >>= f) s = (s', .error e) := by
  rw [bind_apply, h]

theorem lift_ok {x : Except ε α} {s s' : σ} {a : α} (h : lift x s = (s', .ok a)) :
    x = .ok a ∧ s' = s := by
  rw [lift_apply, Prod.mk.injEq] at h
  exact ⟨h.2, h.1.symm⟩

theorem lift_error {x : Except ε α} {s s' : σ} {e : ε} (h : lift x s = (s', .error e)) : s' = s :=
  (congrArg Prod.fst h).symm

/-- With a handler that always raises, only the action itself can have succeeded. -/
theorem handle_ok {x : Action σ ε α} {handler : ε → Action σ ε α} {s s' : σ} {a : α}
    (hhandler : ∀ e s₁ s₂ b, handler e s₁ ≠ (s₂, .ok b))
    (h : x.handle handler s = (s', .ok a)) : x s = (s', .ok a) := by
  unfold handle at h
  rcases hx : x s with ⟨s₁, e | b⟩
  · rw [hx] at h
    exact absurd h (hhandler e s₁ s' a)
  · rw [hx] at h
    exact h

/-- With a handler that leaves the state alone, the action itself has failed in that state. -/
theorem handle_error {x : Action σ ε α} {handler : ε → Action σ ε α} {s s' : σ} {e : ε}
    (hhandler : ∀ e s₁, (handler e s₁).1 = s₁) (h : x.handle handler s = (s', .error e)) :
    ∃ e', x s = (s', .error e') := by
  unfold handle at h
  rcases hx : x s with ⟨s₁, e' | b⟩
  · rw [hx] at h
    have hs := (congrArg Prod.fst h).symm.trans (hhandler e' s₁)
    exact ⟨e', Prod.ext hs.symm rfl⟩
  · rw [hx] at h
    cases h

/-- A sequence of two actions succeeds when both do. -/
theorem bind_eq_ok {x : Action σ ε α} {f : α → Action σ ε β} {s s'' : σ} {b : β} :
    (x >>= f) s = (s'', .ok b) ↔ ∃ s' a, x s = (s', .ok a) ∧ f a s' = (s'', .ok b) := by
  rw [bind_apply]
  rcases hx : x s with ⟨s', e | a⟩ <;> simp

/-- A sequence of two actions fails when the first fails, or the second after it. -/
theorem bind_eq_error {x : Action σ ε α} {f : α → Action σ ε β} {s s'' : σ} {e : ε} :
    (x >>= f) s = (s'', .error e) ↔
      x s = (s'', .error e) ∨ ∃ s' a, x s = (s', .ok a) ∧ f a s' = (s'', .error e) := by
  rw [bind_apply]
  rcases hx : x s with ⟨s', e' | a⟩ <;> simp

@[simp] theorem get_bind (f : σ → Action σ ε β) (s : σ) : (get >>= f) s = f s s := rfl

@[simp] theorem modify_bind (g : σ → σ) (f : Unit → Action σ ε β) (s : σ) :
    (modify g >>= f) s = f () (g s) := rfl

@[simp] theorem lift_ok_bind (a : α) (f : α → Action σ ε β) (s : σ) :
    (lift (.ok a) >>= f) s = f a s := rfl

@[simp] theorem lift_error_bind (e : ε) (f : α → Action σ ε β) (s : σ) :
    (lift (.error e) >>= f) s = (s, .error e) := rfl

theorem atomic_eq_ok {f : σ → Except ε σ} {s s' : σ} {u : Unit} :
    atomic f s = (s', .ok u) ↔ f s = .ok s' := by
  unfold atomic
  cases f s <;> simp

theorem atomic_eq_error {f : σ → Except ε σ} {s s' : σ} {e : ε} :
    atomic f s = (s', .error e) ↔ f s = .error e ∧ s' = s := by
  unfold atomic
  cases f s <;> simp [and_comm, eq_comm]

theorem atomic_of_ok {f : σ → Except ε σ} {s s' : σ} (h : f s = .ok s') :
    atomic f s = (s', .ok ()) := atomic_eq_ok.mpr h

theorem atomic_of_error {f : σ → Except ε σ} {s : σ} {e : ε} (h : f s = .error e) :
    atomic f s = (s, .error e) := by
  rw [atomic, h]

theorem pure_bind (a : α) (f : α → Action σ ε β) : (pure a : Action σ ε α) >>= f = f a := rfl

theorem bind_assoc {γ : Type} (x : Action σ ε α) (f : α → Action σ ε β) (g : β → Action σ ε γ) :
    (x >>= f) >>= g = x >>= fun a => f a >>= g := by
  funext s
  rw [bind_apply, bind_apply, bind_apply]
  rcases x s with ⟨s', e | a⟩ <;> rfl

section Agrees

/-- The actions have the same effect and result. Which exception they raise may differ. -/
def Agrees (x y : Action σ ε α) : Prop :=
  ∀ s, (x s).1 = (y s).1 ∧ (x s).2.toOption = (y s).2.toOption

theorem agrees_refl (x : Action σ ε α) : Agrees x x := fun _ => ⟨rfl, rfl⟩

theorem Agrees.bind {x y : Action σ ε α} {f g : α → Action σ ε β} (hx : Agrees x y)
    (hf : ∀ a, Agrees (f a) (g a)) : Agrees (x >>= f) (y >>= g) := by
  intro s
  obtain ⟨hstate, hresult⟩ := hx s
  rw [bind_apply, bind_apply]
  rcases hxs : x s with ⟨s₁, e₁ | a₁⟩ <;> rcases hys : y s with ⟨s₂, e₂ | a₂⟩ <;>
    rw [hxs, hys] at hstate hresult
  · exact ⟨hstate, rfl⟩
  · cases hresult
  · cases hresult
  · obtain rfl : s₁ = s₂ := hstate
    obtain rfl : a₁ = a₂ := Option.some.inj hresult
    exact hf a₁ s₁

theorem Agrees.handle {x y : Action σ ε α} {f g : ε → Action σ ε α} (hx : Agrees x y)
    (hf : ∀ e₁ e₂, Agrees (f e₁) (g e₂)) : Agrees (x.handle f) (y.handle g) := by
  intro s
  obtain ⟨hstate, hresult⟩ := hx s
  unfold Action.handle
  rcases hxs : x s with ⟨s₁, e₁ | a₁⟩ <;> rcases hys : y s with ⟨s₂, e₂ | a₂⟩ <;>
    rw [hxs, hys] at hstate hresult
  · obtain rfl : s₁ = s₂ := hstate
    exact hf e₁ e₂ s₁
  · cases hresult
  · cases hresult
  · exact ⟨hstate, hresult⟩

end Agrees

section Keeps
variable {R : σ → σ → Prop}

/-- The relation holds between the states before and after the action, also when it raises. -/
def Keeps (R : σ → σ → Prop) (x : Action σ ε α) : Prop := ∀ s, R s (x s).1

theorem keeps_lift (hrefl : ∀ s, R s s) (x : Except ε α) :
    Keeps R (lift x : Action σ ε α) := fun s => hrefl s

theorem keeps_get (hrefl : ∀ s, R s s) : Keeps R (get : Action σ ε σ) := fun s => hrefl s

theorem keeps_raise (hrefl : ∀ s, R s s) (e : ε) : Keeps R (raise e : Action σ ε α) :=
  fun s => hrefl s

theorem keeps_pure (hrefl : ∀ s, R s s) (a : α) : Keeps R (pure a : Action σ ε α) :=
  fun s => hrefl s

theorem keeps_modify {f : σ → σ} (h : ∀ s, R s (f s)) : Keeps R (modify f : Action σ ε Unit) := h

theorem keeps_atomic (hrefl : ∀ s, R s s) {f : σ → Except ε σ}
    (h : ∀ s s', f s = .ok s' → R s s') : Keeps R (atomic f) := by
  intro s
  unfold atomic
  cases hf : f s with
  | ok s' => exact h s s' hf
  | error e => exact hrefl s

theorem keeps_bind (htrans : ∀ a b c, R a b → R b c → R a c) {x : Action σ ε α}
    {f : α → Action σ ε β} (hx : Keeps R x) (hf : ∀ a, Keeps R (f a)) : Keeps R (x >>= f) := by
  intro s
  have hfirst := hx s
  rw [bind_apply]
  rcases hs : x s with ⟨s', e | a⟩
  · rw [hs] at hfirst
    exact hfirst
  · rw [hs] at hfirst
    exact htrans _ _ _ hfirst (hf a s')

theorem keeps_handle (htrans : ∀ a b c, R a b → R b c → R a c) {x : Action σ ε α}
    {handler : ε → Action σ ε α} (hx : Keeps R x) (hhandler : ∀ e, Keeps R (handler e)) :
    Keeps R (x.handle handler) := by
  intro s
  have hfirst := hx s
  unfold handle
  rcases hs : x s with ⟨s', e | a⟩
  · rw [hs] at hfirst
    exact htrans _ _ _ hfirst (hhandler e s')
  · rw [hs] at hfirst
    exact hfirst

end Keeps
end Action
end EntityService.Lib
