import Mathlib.Data.List.Dedup
import Mathlib.Data.List.Sort
import Mathlib.Tactic

/-! The `k` elements of a list with the highest scores. Which of several elements with the same
score are chosen is left open. -/
namespace EntityService.Lib
variable {α β : Type*} [LinearOrder β]

/-- At most `k` candidates, of which none that is left out has a higher score. -/
structure MostSimilar (score : α → β) (k : ℕ) (candidates chosen : List α) : Prop where
  nodup : chosen.Nodup
  mem : ∀ a ∈ chosen, a ∈ candidates
  length : chosen.length = min k candidates.length
  best : ∀ a ∈ chosen, ∀ b ∈ candidates, b ∉ chosen → score b ≤ score a

namespace MostSimilar
variable {score : α → β} {k : ℕ} {candidates chosen : List α} {a : α}

/-- A candidate is chosen when at most `k` have a score as high as its own. -/
theorem mem_of_countP_le (h : MostSimilar score k candidates chosen) (ha : a ∈ candidates)
    (hcount : candidates.countP (fun b => score a ≤ score b) ≤ k) : a ∈ chosen := by
  by_contra hleft
  have hnodup : (a :: chosen).Nodup := List.nodup_cons.mpr ⟨hleft, h.nodup⟩
  have hhigh : ∀ b ∈ a :: chosen, b ∈ candidates.filter fun b => score a ≤ score b := by
    intro b hb
    rcases List.mem_cons.mp hb with rfl | hb
    · exact List.mem_filter.mpr ⟨ha, decide_eq_true le_rfl⟩
    · exact List.mem_filter.mpr ⟨h.mem b hb, decide_eq_true (h.best b hb a ha hleft)⟩
  have hfew := (hnodup.subperm hhigh).length_le
  have hall : ∀ b ∈ a :: chosen, b ∈ candidates := fun b hb => (List.mem_filter.mp (hhigh b hb)).1
  have hless := (hnodup.subperm hall).length_le
  have hlength := h.length
  rw [← List.countP_eq_length_filter] at hfew
  simp only [List.length_cons] at hfew hless
  omega

/-- The candidates in the order of their scores, up to the `k`-th. -/
theorem exists_chosen (score : α → β) (k : ℕ) (hnodup : candidates.Nodup) :
    ∃ chosen, MostSimilar score k candidates chosen := by
  let sorted := candidates.insertionSort fun a b => score b ≤ score a
  have htotal : Std.Total fun a b : α => score b ≤ score a := ⟨fun a b => le_total _ _⟩
  have htrans : IsTrans α fun a b : α => score b ≤ score a := ⟨fun a b c hab hbc => hbc.trans hab⟩
  have hperm : sorted.Perm candidates := List.perm_insertionSort _ _
  have hsorted : sorted.Pairwise fun a b => score b ≤ score a := List.pairwise_insertionSort _ _
  refine ⟨sorted.take k, ?_, ?_, ?_, ?_⟩
  · exact (hperm.nodup_iff.mpr hnodup).sublist (List.take_sublist k sorted)
  · exact fun a ha => hperm.mem_iff.mp (List.mem_of_mem_take ha)
  · rw [List.length_take, hperm.length_eq]
  · intro a ha b hb hleft
    have hdrop : b ∈ sorted.drop k := by
      have hmem : b ∈ sorted.take k ++ sorted.drop k := by
        rw [List.take_append_drop]
        exact hperm.mem_iff.mpr hb
      exact (List.mem_append.mp hmem).resolve_left hleft
    rw [← List.take_append_drop k sorted] at hsorted
    exact (List.pairwise_append.mp hsorted).2.2 a ha b hdrop

/-- A candidate can be left out when more than `k` have a score as high as its own. -/
theorem exists_chosen_without [DecidableEq α] (hnodup : candidates.Nodup) (ha : a ∈ candidates)
    (hcount : k < candidates.countP fun b => score a ≤ score b) :
    ∃ chosen, MostSimilar score k candidates chosen ∧ a ∉ chosen := by
  obtain ⟨chosen, h⟩ := exists_chosen score k (hnodup.erase a)
  have hleft : a ∉ chosen := fun hmem => hnodup.not_mem_erase (h.mem a hmem)
  have hlen : (candidates.erase a).length + 1 = candidates.length := by
    have hpos := List.length_pos_of_mem ha
    rw [List.length_erase_of_mem ha]
    omega
  have hhigh : (candidates.erase a).countP (fun b => score a ≤ score b) + 1 =
      candidates.countP fun b => score a ≤ score b := by
    rw [(List.perm_cons_erase ha).countP_eq, List.countP_cons_of_pos (by simp)]
  have hle : candidates.countP (fun b => score a ≤ score b) ≤ candidates.length :=
    List.countP_le_length
  have hk : chosen.length = k := by
    have hlength := h.length
    omega
  refine ⟨chosen, ⟨h.nodup, fun b hb => List.mem_of_mem_erase (h.mem b hb), by omega, ?_⟩, hleft⟩
  intro b hb c hc hcleft
  by_cases hca : c = a
  · subst hca
    by_contra hlow
    -- otherwise all that score as high as `c` would be chosen beside `b`
    have hothers : ∀ d ∈ (candidates.erase c).filter (fun d => score c ≤ score d),
        d ∈ chosen.erase b := by
      intro d hd
      obtain ⟨hmem, hscore⟩ := List.mem_filter.mp hd
      have hscore : score c ≤ score d := of_decide_eq_true hscore
      have hne : d ≠ b := by
        rintro rfl
        exact hlow hscore
      refine (List.mem_erase_of_ne hne).mpr ?_
      by_contra hdleft
      exact hlow (hscore.trans (h.best b hb d hmem hdleft))
    have hfew := (((hnodup.erase c).filter _).subperm hothers).length_le
    rw [← List.countP_eq_length_filter, List.length_erase_of_mem hb] at hfew
    have hpos := List.length_pos_of_mem hb
    omega
  · exact h.best b hb c ((List.mem_erase_of_ne hca).mpr hc) hcleft

end MostSimilar
end EntityService.Lib
