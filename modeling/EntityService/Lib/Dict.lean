import Mathlib.Data.List.Nodup
import Mathlib.Data.List.Lookmap
import Mathlib.Tactic

/-! Dictionaries that keep the insertion order of their keys. The distinctness of
the keys is a field, so lookups and updates never have to assume it. -/
namespace EntityService.Lib

/-- A condition that fixes the key of an element holds of one element at most. -/
theorem countP_le_one_of_nodup_map {α κ : Type*} [DecidableEq κ] {l : List α} {key : α → κ}
    (hl : (l.map key).Nodup) {p : α → Bool} {k : κ} (hp : ∀ x, p x = true → key x = k) :
    l.countP p ≤ 1 := by
  calc l.countP p
    _ ≤ l.countP (fun x => key x = k) :=
        List.countP_mono_left fun x _ hx => decide_eq_true (hp x hx)
    _ = (l.map key).count k := by
        rw [List.count, List.countP_map]
        exact List.countP_congr fun x _ => by simp
    _ ≤ 1 := List.nodup_iff_count_le_one.mp hl k

/-- Key-value pairs in insertion order, each key once. -/
structure Dict (κ ν : Type*) where
  entries : List (κ × ν)
  nodup : (entries.map Prod.fst).Nodup

namespace Dict
variable {κ ν : Type*}

def empty : Dict κ ν := ⟨[], List.nodup_nil⟩

def keys (d : Dict κ ν) : List κ := d.entries.map Prod.fst

theorem nodup_keys (d : Dict κ ν) : d.keys.Nodup := d.nodup

@[simp] theorem keys_empty : (empty : Dict κ ν).keys = [] := rfl

/-- The values in the order of the keys. -/
def values (d : Dict κ ν) : List ν := d.entries.map Prod.snd

theorem length_values (d : Dict κ ν) : d.values.length = d.keys.length := by
  rw [values, keys, List.length_map, List.length_map]

@[ext] theorem ext {d e : Dict κ ν} (h : d.entries = e.entries) : d = e := by
  cases d; cases e; congr

variable [DecidableEq κ]

def get? (d : Dict κ ν) (k : κ) : Option ν :=
  (d.entries.find? (fun p => p.1 = k)).map Prod.snd

@[simp] theorem get?_empty (k : κ) : (empty : Dict κ ν).get? k = none := rfl

theorem get?_eq_some {d : Dict κ ν} {k : κ} {v : ν} :
    d.get? k = some v ↔ (k, v) ∈ d.entries := by
  obtain ⟨l, hl⟩ := d
  simp only [get?]
  induction l with
  | nil => simp
  | cons p l ih =>
    obtain ⟨a, b⟩ := p
    simp only [List.map_cons, List.nodup_cons] at hl
    by_cases hk : a = k
    · subst hk
      have hout : (a, v) ∉ l := fun hv => hl.1 (List.mem_map_of_mem hv)
      simp [hout, eq_comm]
    · have hne : ¬ (k = a ∧ v = b) := fun h => hk h.1.symm
      simpa [hk, hne, Ne.symm hk] using ih hl.2

theorem get?_isSome {d : Dict κ ν} {k : κ} : (d.get? k).isSome ↔ k ∈ d.keys := by
  simp only [Option.isSome_iff_exists, get?_eq_some, keys, List.mem_map, Prod.exists,
    exists_and_right, exists_eq_right]

theorem get?_eq_none {d : Dict κ ν} {k : κ} : d.get? k = none ↔ k ∉ d.keys := by
  rw [← get?_isSome, Option.not_isSome_iff_eq_none]

theorem mem_keys_iff {d : Dict κ ν} {k : κ} : k ∈ d.keys ↔ ∃ v, d.get? k = some v := by
  rw [← get?_isSome, Option.isSome_iff_exists]

theorem mem_keys_of_get? {d : Dict κ ν} {k : κ} {v : ν} (h : d.get? k = some v) :
    k ∈ d.keys := mem_keys_iff.mpr ⟨v, h⟩

theorem values_eq_filterMap (d : Dict κ ν) : d.values = d.keys.filterMap d.get? := by
  unfold values keys
  rw [List.filterMap_map]
  have hget : ∀ p ∈ d.entries, (d.get? ∘ Prod.fst) p = some p.2 := fun p hp =>
    get?_eq_some.mpr hp
  rw [List.filterMap_congr hget, List.filterMap_eq_map']

theorem get?_of_entries_append {d e : Dict κ ν} {l : List (κ × ν)}
    (h : e.entries = d.entries ++ l) {k : κ} (hk : k ∈ d.keys) : e.get? k = d.get? k := by
  obtain ⟨v, hv⟩ := mem_keys_iff.mp hk
  rw [hv, get?_eq_some, h]
  exact List.mem_append_left l (get?_eq_some.mp hv)

/-- A condition on the value of one key holds of one entry or of none. -/
theorem countP_key (d : Dict κ ν) (k : κ) (p : ν → Prop) [DecidablePred p] :
    d.entries.countP (fun r => p r.2 ∧ r.1 = k) = 1 ↔ ∃ v, d.get? k = some v ∧ p v := by
  have hle : d.entries.countP (fun r => p r.2 ∧ r.1 = k) ≤ 1 :=
    countP_le_one_of_nodup_map d.nodup fun r hr => (of_decide_eq_true hr).2
  have hpos : 0 < d.entries.countP (fun r => p r.2 ∧ r.1 = k) ↔
      ∃ v, d.get? k = some v ∧ p v := by
    rw [List.countP_pos_iff]
    constructor
    · rintro ⟨⟨a, v⟩, hmem, h⟩
      obtain ⟨hp, rfl⟩ := of_decide_eq_true h
      exact ⟨v, get?_eq_some.mpr hmem, hp⟩
    · rintro ⟨v, hv, hp⟩
      exact ⟨(k, v), get?_eq_some.mp hv, decide_eq_true ⟨hp, rfl⟩⟩
  rw [← hpos]
  omega

/-- Overwrite the value of a present key where it stands, or append a new key. -/
def set (d : Dict κ ν) (k : κ) (v : ν) : Dict κ ν where
  entries :=
    if k ∈ d.keys then d.entries.map (fun p => if p.1 = k then (k, v) else p)
    else d.entries ++ [(k, v)]
  nodup := by
    split_ifs with hk
    · have hsame : (d.entries.map (fun p => if p.1 = k then (k, v) else p)).map Prod.fst =
          d.entries.map Prod.fst := by
        rw [List.map_map]
        refine List.map_congr_left fun p _ => ?_
        by_cases hp : p.1 = k <;> simp [hp]
      rw [hsame]
      exact d.nodup
    · rw [List.map_append]
      exact d.nodup.append (List.nodup_singleton _) (by simpa [keys] using hk)

theorem entries_set_of_mem {d : Dict κ ν} {k : κ} (v : ν) (hk : k ∈ d.keys) :
    (d.set k v).entries = d.entries.map (fun p => if p.1 = k then (k, v) else p) :=
  if_pos hk

theorem entries_set_of_not_mem {d : Dict κ ν} {k : κ} (v : ν) (hk : k ∉ d.keys) :
    (d.set k v).entries = d.entries ++ [(k, v)] :=
  if_neg hk

@[simp] theorem mem_keys_set {d : Dict κ ν} {k a : κ} {v : ν} :
    a ∈ (d.set k v).keys ↔ a ∈ d.keys ∨ a = k := by
  by_cases hk : k ∈ d.keys
  · have hsame : (d.set k v).keys = d.keys := by
      rw [keys, entries_set_of_mem v hk, keys, List.map_map]
      refine List.map_congr_left fun p _ => ?_
      by_cases hp : p.1 = k <;> simp [hp]
    rw [hsame]
    exact ⟨Or.inl, fun h => h.elim id (fun h => h ▸ hk)⟩
  · rw [keys, entries_set_of_not_mem v hk]
    simp [keys]

@[simp] theorem get?_set_self (d : Dict κ ν) (k : κ) (v : ν) : (d.set k v).get? k = some v := by
  rw [get?_eq_some]
  by_cases hk : k ∈ d.keys
  · rw [entries_set_of_mem v hk]
    obtain ⟨p, hp, rfl⟩ := List.mem_map.mp hk
    exact List.mem_map.mpr ⟨p, hp, by simp⟩
  · simp [entries_set_of_not_mem v hk]

theorem get?_set_of_ne (d : Dict κ ν) {k a : κ} (v : ν) (h : a ≠ k) :
    (d.set k v).get? a = d.get? a := by
  refine Option.ext fun w => ?_
  rw [get?_eq_some, get?_eq_some]
  by_cases hk : k ∈ d.keys
  · rw [entries_set_of_mem v hk, List.mem_map]
    constructor
    · rintro ⟨p, hp, he⟩
      by_cases hpk : p.1 = k
      · rw [if_pos hpk] at he
        exact absurd (congrArg Prod.fst he).symm h
      · rw [if_neg hpk] at he
        exact he ▸ hp
    · exact fun hp => ⟨(a, w), hp, if_neg h⟩
  · simp [entries_set_of_not_mem v hk, h]

theorem get?_set (d : Dict κ ν) (k a : κ) (v : ν) :
    (d.set k v).get? a = if a = k then some v else d.get? a := by
  split_ifs with h
  · rw [h, get?_set_self]
  · exact d.get?_set_of_ne v h

theorem get?_foldl_set (ks : List κ) (v : ν) (d : Dict κ ν) (a : κ) :
    (ks.foldl (fun d k => d.set k v) d).get? a = if a ∈ ks then some v else d.get? a := by
  induction ks generalizing d with
  | nil => simp
  | cons k ks ih =>
    rw [List.foldl_cons, ih, get?_set]
    by_cases ha : a ∈ ks
    · simp [ha]
    · simp [ha]

theorem get?_of_entries_zip {d : Dict κ ν} {ks : List κ} {vs : List ν}
    (h : d.entries = ks.zip vs) {i : ℕ} {k : κ} {v : ν} (hk : ks[i]? = some k)
    (hv : vs[i]? = some v) : d.get? k = some v := by
  rw [get?_eq_some, h]
  exact List.mem_of_getElem? (List.getElem?_zip_eq_some.mpr ⟨hk, hv⟩)

def erase (d : Dict κ ν) (k : κ) : Dict κ ν where
  entries := d.entries.filter (fun p => p.1 ≠ k)
  nodup := d.nodup.sublist (List.filter_sublist.map Prod.fst)

theorem get?_erase_of_ne (d : Dict κ ν) {k a : κ} (h : a ≠ k) : (d.erase k).get? a = d.get? a := by
  refine Option.ext fun w => ?_
  rw [get?_eq_some, get?_eq_some, erase, List.mem_filter]
  simp [h]

@[simp] theorem get?_erase_self (d : Dict κ ν) (k : κ) : (d.erase k).get? k = none := by
  rw [get?_eq_none, keys, erase]
  simp

theorem get?_foldl_erase_of_not_mem {ks : List κ} {d : Dict κ ν} {k : κ} (h : k ∉ ks) :
    (ks.foldl erase d).get? k = d.get? k := by
  induction ks generalizing d with
  | nil => rfl
  | cons a ks ih =>
    simp only [List.mem_cons, not_or] at h
    rw [List.foldl_cons, ih h.2, get?_erase_of_ne _ h.1]

theorem get?_foldl_erase_of_none {ks : List κ} {d : Dict κ ν} {k : κ} (h : d.get? k = none) :
    (ks.foldl erase d).get? k = none := by
  induction ks generalizing d with
  | nil => exact h
  | cons a ks ih =>
    by_cases ha : k = a
    · subst ha
      exact ih (get?_erase_self d k)
    · exact ih ((get?_erase_of_ne d ha).trans h)

theorem get?_of_get?_foldl_erase {ks : List κ} {d : Dict κ ν} {k : κ} {v : ν}
    (h : (ks.foldl erase d).get? k = some v) : d.get? k = some v := by
  induction ks generalizing d with
  | nil => exact h
  | cons a ks ih =>
    have herase := ih h
    by_cases ha : k = a
    · subst ha
      rw [get?_erase_self] at herase
      cases herase
    · rwa [get?_erase_of_ne d ha] at herase

/-- Change the values where they stand. -/
def mapValues (f : κ → ν → ν) (d : Dict κ ν) : Dict κ ν where
  entries := d.entries.map fun p => (p.1, f p.1 p.2)
  nodup := by
    rw [List.map_map]
    exact d.nodup

@[simp] theorem get?_mapValues (f : κ → ν → ν) (d : Dict κ ν) (k : κ) :
    (d.mapValues f).get? k = (d.get? k).map (f k) := by
  refine Option.ext fun v => ?_
  rw [get?_eq_some, Option.map_eq_some_iff]
  constructor
  · intro h
    obtain ⟨⟨a, w⟩, hmem, he⟩ := List.mem_map.mp h
    obtain ⟨rfl, rfl⟩ := Prod.mk.inj he
    exact ⟨w, get?_eq_some.mpr hmem, rfl⟩
  · rintro ⟨w, hw, rfl⟩
    exact List.mem_map.mpr ⟨(k, w), get?_eq_some.mp hw, rfl⟩

/-- The dictionary of a list of pairs: a later pair overwrites an earlier one. -/
def ofList (l : List (κ × ν)) : Dict κ ν := l.foldl (fun d p => d.set p.1 p.2) empty

theorem ofList_append_singleton (l : List (κ × ν)) (p : κ × ν) :
    ofList (l ++ [p]) = (ofList l).set p.1 p.2 := by
  simp [ofList]

theorem mem_keys_ofList {l : List (κ × ν)} {k : κ} :
    k ∈ (ofList l).keys ↔ k ∈ l.map Prod.fst := by
  induction l using List.reverseRecOn with
  | nil => simp [ofList]
  | append_singleton l p ih => simp [ofList_append_singleton, ih]

theorem mem_of_get?_ofList {l : List (κ × ν)} {k : κ} {v : ν} (h : (ofList l).get? k = some v) :
    (k, v) ∈ l := by
  induction l using List.reverseRecOn with
  | nil => cases h
  | append_singleton l p ih =>
    rw [ofList_append_singleton, get?_set] at h
    split_ifs at h with hk
    · subst hk
      cases h
      exact List.mem_append_right l List.mem_cons_self
    · exact List.mem_append_left _ (ih h)

/-- With distinct keys the dictionary of a list holds exactly its pairs. -/
theorem get?_ofList {l : List (κ × ν)} (hl : (l.map Prod.fst).Nodup) {k : κ} {v : ν} :
    (ofList l).get? k = some v ↔ (k, v) ∈ l := by
  induction l using List.reverseRecOn with
  | nil => simp [ofList]
  | append_singleton l p ih =>
    obtain ⟨a, b⟩ := p
    rw [List.map_append, List.nodup_append] at hl
    have hout : ∀ w, (a, w) ∉ l := fun w hw =>
      hl.2.2 a (List.mem_map_of_mem hw) a (by simp) rfl
    rw [ofList_append_singleton, get?_set]
    split_ifs with h
    · subst h
      simp [hout, eq_comm]
    · rw [ih hl.1]
      simp [h]

/-- The values of a dictionary of a list can be computed after the look-up. -/
theorem get?_ofList_key {α μ : Type*} (key : α → κ) (f : α → μ) (l : List α) (k : κ) :
    (ofList (l.map fun a => (key a, f a))).get? k =
      ((ofList (l.map fun a => (key a, a))).get? k).map f := by
  induction l using List.reverseRecOn with
  | nil => rfl
  | append_singleton l a ih =>
    simp only [List.map_append, List.map_cons, List.map_nil, ofList_append_singleton, get?_set, ih]
    split_ifs <;> rfl

/-- Count how often each element occurs, in the order of first occurrence. -/
def tally (l : List κ) : Dict κ ℕ := l.foldl (fun d a => d.set a ((d.get? a).getD 0 + 1)) empty

theorem tally_append_singleton (l : List κ) (a : κ) :
    tally (l ++ [a]) = (tally l).set a (((tally l).get? a).getD 0 + 1) := by
  simp [tally]

theorem get?_tally [BEq κ] [LawfulBEq κ] (l : List κ) (a : κ) :
    (tally l).get? a = if a ∈ l then some (l.count a) else none := by
  induction l using List.reverseRecOn with
  | nil => simp [tally]
  | append_singleton l b ih =>
    rw [tally_append_singleton, get?_set]
    by_cases hab : a = b
    · subst hab
      rw [if_pos rfl, ih]
      by_cases hm : a ∈ l
      · simp [hm]
      · simp [hm, List.count_eq_zero_of_not_mem hm]
    · rw [if_neg hab, ih]
      simp [hab, Ne.symm hab]

theorem mem_keys_tally {l : List κ} {a : κ} : a ∈ (tally l).keys ↔ a ∈ l := by
  rw [mem_keys_iff, get?_tally]
  split_ifs with h <;> simp [h]

theorem mem_entries_tally [BEq κ] [LawfulBEq κ] {l : List κ} {a : κ} {n : ℕ} :
    (a, n) ∈ (tally l).entries ↔ a ∈ l ∧ l.count a = n := by
  rw [← get?_eq_some, get?_tally]
  split_ifs with h <;> simp [h]

/-- The elements of a list under a key each, in the order of the list. -/
def groupBy (f : ν → κ) (l : List ν) : Dict κ (List ν) :=
  l.foldl (fun d a => d.set (f a) ((d.get? (f a)).getD [] ++ [a])) empty

theorem groupBy_append_singleton (f : ν → κ) (l : List ν) (a : ν) :
    groupBy f (l ++ [a]) = (groupBy f l).set (f a) (((groupBy f l).get? (f a)).getD [] ++ [a]) := by
  simp [groupBy]

theorem get?_groupBy (f : ν → κ) (l : List ν) (k : κ) :
    (groupBy f l).get? k = if k ∈ l.map f then some (l.filter (fun a => f a = k)) else none := by
  induction l using List.reverseRecOn with
  | nil => simp [groupBy]
  | append_singleton l a ih =>
    rw [groupBy_append_singleton, get?_set, List.map_append, List.filter_append]
    by_cases hk : k = f a
    · subst hk
      rw [if_pos rfl, ih]
      by_cases hm : f a ∈ l.map f
      · rw [if_pos hm]
        simp
      · have hnone : l.filter (fun b => f b = f a) = [] :=
          List.filter_eq_nil_iff.mpr fun b hb => by
            simpa using fun he => hm (List.mem_map.mpr ⟨b, hb, he⟩)
        rw [if_neg hm, hnone]
        simp
    · have hne : f a ≠ k := fun h => hk h.symm
      rw [if_neg hk, ih]
      simp [hk, hne]

end Dict
end EntityService.Lib
