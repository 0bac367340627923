import EntityService.Lib.Dict

/-! Tables as lists of rows. An update that is about other rows leaves the rows with a property as
they are and where they stand, and a query for such rows finds the same. So does one for the first
of them while rows are appended. -/
namespace EntityService.Lib

section Update
variable {α : Type*} {p q : α → Bool} {l l' : List α}

theorem filter_map_of_unchanged {f : α → α} (hp : ∀ x ∈ l, p (f x) = p x)
    (hf : ∀ x ∈ l, p x = true → f x = x) : (l.map f).filter p = l.filter p := by
  have hsame : l.filter (p ∘ f) = l.filter p := List.filter_congr hp
  rw [List.filter_map, hsame]
  refine (List.map_congr_left ?_).trans (List.map_id _)
  intro x hx
  obtain ⟨hmem, hpx⟩ := List.mem_filter.mp hx
  exact hf x hmem hpx

theorem filter_append_of_not (h : ∀ x ∈ l', p x = false) : (l ++ l').filter p = l.filter p := by
  have hnil : l'.filter p = [] := List.filter_eq_nil_iff.mpr fun x hx => by simp [h x hx]
  rw [List.filter_append, hnil, List.append_nil]

theorem filter_filter_of_imp (h : ∀ x ∈ l, p x = true → q x = true) :
    (l.filter q).filter p = l.filter p := by
  rw [List.filter_filter]
  apply List.filter_congr
  intro x hx
  cases hp : p x with
  | false => rfl
  | true => rw [h x hx hp]; rfl

theorem filter_erase_of_not [DecidableEq α] {a : α} (h : p a = false) :
    (l.erase a).filter p = l.filter p := by
  induction l with
  | nil => rfl
  | cons x l ih =>
    by_cases hx : x = a
    · subst hx
      rw [List.erase_cons_head, List.filter_cons_of_neg (by simp [h])]
    · rw [List.erase_cons_tail (by simpa using hx), List.filter_cons, List.filter_cons, ih]

theorem filter_diff_of_not [DecidableEq α] (h : ∀ x ∈ l', p x = false) :
    (l.diff l').filter p = l.filter p := by
  induction l' generalizing l with
  | nil => rw [List.diff_nil]
  | cons a l' ih =>
    rw [List.diff_cons, ih fun x hx => h x (List.mem_cons_of_mem a hx),
      filter_erase_of_not (h a List.mem_cons_self)]

end Update

section Query
variable {α : Type*} {p q : α → Bool} {l l' : List α}

theorem filter_eq_of_filter_eq (h : l'.filter p = l.filter p) (hq : ∀ x, q x = true → p x = true) :
    l'.filter q = l.filter q := by
  rw [← filter_filter_of_imp fun x _ => hq x, h, filter_filter_of_imp fun x _ => hq x]

theorem find?_eq_of_filter_eq (h : l'.filter p = l.filter p) (hq : ∀ x, q x = true → p x = true) :
    l'.find? q = l.find? q := by
  rw [← List.head?_filter, ← List.head?_filter, filter_eq_of_filter_eq h hq]

theorem countP_eq_of_filter_eq (h : l'.filter p = l.filter p) (hq : ∀ x, q x = true → p x = true) :
    l'.countP q = l.countP q := by
  rw [List.countP_eq_length_filter, List.countP_eq_length_filter, filter_eq_of_filter_eq h hq]

end Query

section Append
variable {α : Type*} {p : α → Bool} {l l' : List α}

theorem filter_prefix_append (l l' : List α) (p : α → Bool) :
    l.filter p <+: (l ++ l').filter p := by
  rw [List.filter_append]
  exact List.prefix_append _ _

/-- The first row that is found is still the first one. -/
theorem find?_of_filter_prefix (h : l.filter p <+: l'.filter p) {x : α} (hx : l.find? p = some x) :
    l'.find? p = some x := by
  obtain ⟨rest, hrest⟩ := h
  rw [← List.head?_filter] at hx ⊢
  rw [← hrest, List.head?_append, hx]
  rfl

end Append

namespace Dict
variable {κ ν : Type*} [DecidableEq κ] {d d' : Dict κ ν} {p : κ × ν → Bool} {k : κ}

theorem filter_entries_mapValues {f : κ → ν → ν} (hp : ∀ k v, p (k, f k v) = p (k, v))
    (hf : ∀ k v, d.get? k = some v → p (k, v) = true → f k v = v) :
    (d.mapValues f).entries.filter p = d.entries.filter p := by
  apply filter_map_of_unchanged
  · intro e _
    exact hp e.1 e.2
  · intro e he hpe
    exact Prod.ext rfl (hf e.1 e.2 (get?_eq_some.mpr he) hpe)

theorem filter_entries_set {v : ν} (hk : d.get? k = none) (hp : p (k, v) = false) :
    (d.set k v).entries.filter p = d.entries.filter p := by
  rw [entries_set_of_not_mem v (get?_eq_none.mp hk)]
  apply filter_append_of_not
  intro e he
  rw [List.mem_singleton.mp he, hp]

theorem filter_entries_erase (hp : ∀ v, d.get? k = some v → p (k, v) = false) :
    (d.erase k).entries.filter p = d.entries.filter p := by
  apply filter_filter_of_imp
  rintro ⟨a, v⟩ he hpe
  refine decide_eq_true ?_
  rintro rfl
  rw [hp v (get?_eq_some.mpr he)] at hpe
  cases hpe

/-- The value of a key is found among the entries with the property. -/
theorem get?_of_filter_entries (h : d'.entries.filter p = d.entries.filter p) {v : ν}
    (hv : d'.get? k = some v) (hp : p (k, v) = true) : d.get? k = some v := by
  have hmem : (k, v) ∈ d'.entries.filter p := List.mem_filter.mpr ⟨get?_eq_some.mp hv, hp⟩
  rw [h] at hmem
  exact get?_eq_some.mpr (List.mem_filter.mp hmem).1

end Dict
end EntityService.Lib
