import EntityService.Lib.Dict
import Mathlib.Algebra.BigOperators.Group.Finset.Basic
import Mathlib.Tactic

/-! Sums over the pairs of an earlier and a later element of a list, and over the groups of a
list. -/
namespace EntityService.Lib
open scoped BigOperators

variable {α β ι M : Type*} [AddCommMonoid M]

def pairSum (f : α → α → M) : List α → M
  | [] => 0
  | x :: xs => (xs.map (f x)).sum + pairSum f xs

theorem pairSum_congr {f g : α → α → M} {l : List α} (h : ∀ a ∈ l, ∀ b ∈ l, f a b = g a b) :
    pairSum f l = pairSum g l := by
  induction l with
  | nil => rfl
  | cons x l ih =>
    have hx : l.map (f x) = l.map (g x) := List.map_congr_left fun b hb =>
      h x List.mem_cons_self b (List.mem_cons_of_mem x hb)
    have hrest := ih fun a ha b hb => h a (List.mem_cons_of_mem x ha) b (List.mem_cons_of_mem x hb)
    rw [pairSum, pairSum, hx, hrest]

/-- The order of the list does not matter to a symmetric function. -/
theorem pairSum_perm {f : α → α → M} (hf : ∀ a b, f a b = f b a) {l l' : List α}
    (h : l.Perm l') : pairSum f l = pairSum f l' := by
  induction h with
  | nil => rfl
  | cons x h ih => rw [pairSum, pairSum, ih, (h.map (f x)).sum_eq]
  | swap x y l =>
    simp only [pairSum, List.map_cons, List.sum_cons, hf x y]
    abel
  | trans _ _ ih1 ih2 => exact ih1.trans ih2

/-- Elements without a value pair up with nothing. -/
theorem pairSum_filterMap (f : β → β → M) (g : α → Option β) (l : List α) :
    pairSum f (l.filterMap g) =
      pairSum (fun a b => (Option.map₂ f (g a) (g b)).getD 0) l := by
  have hsum : ∀ (x : β) (l : List α), ((l.filterMap g).map (f x)).sum =
      (l.map fun b => ((g b).map (f x)).getD 0).sum := by
    intro x l
    induction l with
    | nil => rfl
    | cons a l ih => cases ha : g a <;> simp [ha, ih]
  induction l with
  | nil => rfl
  | cons a l ih =>
    cases ha : g a with
    | none =>
      have hzero : (l.map fun b => (Option.map₂ f none (g b)).getD 0).sum = 0 := by
        simp
      rw [List.filterMap_cons_none ha, pairSum, ih, ha, hzero, zero_add]
    | some x =>
      rw [List.filterMap_cons_some ha, pairSum, pairSum, ih, hsum, ha]
      simp only [Option.map₂_coe_left]

theorem map_pairSum {N : Type*} [AddCommMonoid N] (g : M →+ N) (f : α → α → M) (l : List α) :
    g (pairSum f l) = pairSum (fun a b => g (f a b)) l := by
  induction l with
  | nil => exact map_zero g
  | cons x l ih =>
    rw [pairSum, pairSum, map_add, ih, map_list_sum, List.map_map]
    rfl

theorem sum_map_finsetSum (S : Finset ι) (f : ι → α → M) (l : List α) :
    (l.map fun a => ∑ n ∈ S, f n a).sum = ∑ n ∈ S, (l.map (f n)).sum := by
  induction l with
  | nil => simp
  | cons a l ih => simp only [List.map_cons, List.sum_cons, ih, Finset.sum_add_distrib]

/-- The sums over the pairs and over an index may be exchanged. -/
theorem pairSum_finsetSum (S : Finset ι) (f : ι → α → α → M) (l : List α) :
    pairSum (fun a b => ∑ n ∈ S, f n a b) l = ∑ n ∈ S, pairSum (f n) l := by
  induction l with
  | nil => simp [pairSum]
  | cons x l ih =>
    have hx := sum_map_finsetSum S (fun n => f n x) l
    simp only [pairSum, ih, hx, Finset.sum_add_distrib]

/-- A sum over the groups of a list is one over their keys. -/
theorem sum_groupBy {κ : Type*} [DecidableEq κ] (key : α → κ) (f : List α → M) (l : List α) :
    ((Dict.groupBy key l).entries.map fun g => f g.2).sum =
      ∑ k ∈ (l.map key).toFinset, f (l.filter fun a => key a = k) := by
  have hentries : (Dict.groupBy key l).entries.map (fun g => f g.2) =
      (Dict.groupBy key l).keys.map fun k => f (l.filter fun a => key a = k) := by
    rw [Dict.keys, List.map_map]
    apply List.map_congr_left
    rintro ⟨k, as⟩ hmem
    rw [← Dict.get?_eq_some, Dict.get?_groupBy] at hmem
    split_ifs at hmem with hk
    exact congrArg f (Option.some.inj hmem).symm
  have hkeys : (l.map key).toFinset = (Dict.groupBy key l).keys.toFinset := by
    ext k
    rw [List.mem_toFinset, List.mem_toFinset, Dict.mem_keys_iff, Dict.get?_groupBy]
    split_ifs with hk
    · exact iff_of_true hk ⟨_, rfl⟩
    · simp [hk]
  rw [hentries, hkeys, List.sum_toFinset _ (Dict.nodup_keys _)]

/-- The elements with keys in a list are those with each key in turn. -/
theorem perm_flatMap_filter {κ : Type*} [DecidableEq κ] (key : α → κ) (l : List α) {ks : List κ}
    (hks : ks.Nodup) :
    (l.filter fun a => key a ∈ ks).Perm (ks.flatMap fun k => l.filter fun a => key a = k) := by
  induction ks with
  | nil => simp
  | cons k ks ih =>
    obtain ⟨hk, hks⟩ := List.nodup_cons.mp hks
    have hsplit := List.filter_append_perm (fun a => key a = k)
      (l.filter fun a => key a ∈ k :: ks)
    rw [List.filter_filter, List.filter_filter] at hsplit
    have hthis : (l.filter fun a => decide (key a = k) && decide (key a ∈ k :: ks)) =
        l.filter fun a => key a = k := by
      refine List.filter_congr fun a _ => ?_
      by_cases ha : key a = k
      · simp [ha]
      · simp [ha]
    have hrest : (l.filter fun a => !decide (key a = k) && decide (key a ∈ k :: ks)) =
        l.filter fun a => key a ∈ ks := by
      refine List.filter_congr fun a _ => ?_
      by_cases ha : key a = k
      · simp [ha, hk]
      · simp [ha]
    rw [hthis, hrest] at hsplit
    rw [List.flatMap_cons]
    exact hsplit.symm.trans ((ih hks).append_left _)

end EntityService.Lib
