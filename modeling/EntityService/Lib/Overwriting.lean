import EntityService.Lib.Dict
import Mathlib.Data.List.Perm.Subperm

/-! What the dictionary of a list of pairs keeps of them, and what later pairs overwrite. -/
namespace EntityService.Lib.Dict
variable {κ ν : Type*} [DecidableEq κ]

/-- The pairs that no later pair overwrites. -/
def lasts : List (κ × ν) → List (κ × ν)
  | [] => []
  | p :: l => if p.1 ∈ l.map Prod.fst then lasts l else p :: lasts l

theorem lasts_sublist (l : List (κ × ν)) : (lasts l).Sublist l := by
  induction l with
  | nil => exact List.Sublist.slnil
  | cons p l ih =>
    unfold lasts
    split_ifs with h
    · exact ih.cons p
    · exact ih.cons_cons p

theorem nodup_lasts (l : List (κ × ν)) : ((lasts l).map Prod.fst).Nodup := by
  induction l with
  | nil => exact List.nodup_nil
  | cons p l ih =>
    unfold lasts
    split_ifs with h
    · exact ih
    · have hp : p.1 ∉ (lasts l).map Prod.fst := fun hm => h (((lasts_sublist l).map _).subset hm)
      exact List.nodup_cons.mpr ⟨hp, ih⟩

theorem mem_lasts_append_singleton {l : List (κ × ν)} {p q : κ × ν} :
    q ∈ lasts (l ++ [p]) ↔ q = p ∨ q.1 ≠ p.1 ∧ q ∈ lasts l := by
  induction l with
  | nil => simp [lasts]
  | cons r l ih =>
    simp only [List.cons_append, lasts, List.map_append, List.map_cons, List.map_nil,
      List.mem_append, List.mem_singleton]
    by_cases hrl : r.1 ∈ l.map Prod.fst
    · simp only [hrl, true_or, if_true, ih]
    · by_cases hrp : r.1 = p.1
      · rw [hrp] at hrl
        simp only [hrl, hrp, or_true, if_true, if_false, ih, List.mem_cons]
        refine or_congr_right (and_congr_right fun hne => ⟨Or.inr, ?_⟩)
        rintro (rfl | hq)
        · exact absurd hrp hne
        · exact hq
      · simp only [hrl, hrp, or_self, if_false, List.mem_cons, ih]
        constructor
        · rintro (rfl | rfl | hq)
          · exact Or.inr ⟨hrp, Or.inl rfl⟩
          · exact Or.inl rfl
          · exact Or.inr ⟨hq.1, Or.inr hq.2⟩
        · rintro (rfl | ⟨hne, rfl | hq⟩)
          · exact Or.inr (Or.inl rfl)
          · exact Or.inl rfl
          · exact Or.inr (Or.inr ⟨hne, hq⟩)

/-- The dictionary of a list keeps the pairs that are not overwritten. -/
theorem mem_entries_ofList {l : List (κ × ν)} {q : κ × ν} :
    q ∈ (ofList l).entries ↔ q ∈ lasts l := by
  induction l using List.reverseRecOn with
  | nil => simp [ofList, lasts, empty]
  | append_singleton l p ih =>
    obtain ⟨k, v⟩ := q
    rw [mem_lasts_append_singleton, ← ih, ofList_append_singleton, ← get?_eq_some, get?_set]
    obtain ⟨a, b⟩ := p
    by_cases hk : k = a
    · simp [hk, eq_comm]
    · simp [hk, get?_eq_some]

theorem perm_lasts (l : List (κ × ν)) : (ofList l).entries.Perm (lasts l) :=
  (List.perm_ext_iff_of_nodup (ofList l).nodup.of_map (nodup_lasts l).of_map).mpr
    fun _ => mem_entries_ofList

section Lists
variable {α : Type*}

/-- All elements of the lists of a dictionary, looked up key by key. -/
theorem perm_flatMap_get? {d : Dict κ (List α)} {ks : List κ} (h : ks.Perm d.keys) :
    (ks.flatMap fun k => (d.get? k).getD []).Perm (d.entries.flatMap Prod.snd) := by
  refine (h.flatMap_right _).trans (List.Perm.of_eq ?_)
  rw [keys, List.flatMap_map, List.flatMap_def, List.flatMap_def]
  refine congrArg List.flatten (List.map_congr_left fun p hp => ?_)
  rw [get?_eq_some.mpr hp, Option.getD_some]

/-- The elements of the lists that are overwritten. -/
def overwritten : List (κ × List α) → List α
  | [] => []
  | p :: l => if p.1 ∈ l.map Prod.fst then p.2 ++ overwritten l else overwritten l

/-- All elements of the lists are kept or overwritten. -/
theorem perm_flatMap_overwritten (l : List (κ × List α)) :
    (l.flatMap Prod.snd).Perm ((ofList l).entries.flatMap Prod.snd ++ overwritten l) := by
  have hkept := (perm_lasts l).flatMap_right Prod.snd
  refine List.Perm.trans ?_ (hkept.symm.append_right _)
  clear hkept
  induction l with
  | nil => exact List.Perm.nil
  | cons p l ih =>
    unfold lasts overwritten
    split_ifs with h
    · rw [List.flatMap_cons]
      refine (ih.append_left p.2).trans ?_
      rw [← List.append_assoc, ← List.append_assoc]
      exact List.perm_append_comm.append_right _
    · rw [List.flatMap_cons, List.flatMap_cons, List.append_assoc]
      exact ih.append_left p.2

/-- Nothing is overwritten when the list of every repeated key is empty before its last pair. -/
theorem overwritten_eq_nil_iff {l : List (κ × List α)} :
    overwritten l = [] ↔ l.Pairwise fun p q => p.1 = q.1 → p.2 = [] := by
  induction l with
  | nil => simp [overwritten]
  | cons p l ih =>
    unfold overwritten
    rw [List.pairwise_cons, ← ih]
    split_ifs with h
    · obtain ⟨q, hq, hk⟩ := List.mem_map.mp h
      rw [List.append_eq_nil_iff]
      exact and_congr_left fun _ => ⟨fun hp _ _ _ => hp, fun hp => hp q hq hk.symm⟩
    · have hp : ∀ q ∈ l, p.1 = q.1 → p.2 = [] := fun q hq hk =>
        absurd (List.mem_map.mpr ⟨q, hq, hk.symm⟩) h
      exact (and_iff_right hp).symm

end Lists
end EntityService.Lib.Dict
