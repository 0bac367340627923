import Mathlib.Data.List.Dedup
import Mathlib.Data.List.Sort
import Mathlib.Tactic

/-! Lists that are sorted by a key: what sorting gives, and how a sorted list falls into runs.
Lists that are joined with another list row by row. -/
namespace EntityService.Lib
variable {α β : Type*}

/-- Sorting by a key that occurs once gives the permutation whose keys ascend. -/
theorem insertionSort_eq_of_perm [LinearOrder β] {key : α → β} {l t : List α} (hp : t.Perm l)
    (ht : t.Pairwise fun a b => key a < key b) :
    l.insertionSort (fun a b => key a ≤ key b) = t := by
  have htotal : Std.Total fun a b : α => key a ≤ key b := ⟨fun a b => le_total _ _⟩
  have htrans : IsTrans α fun a b : α => key a ≤ key b := ⟨fun a b c => le_trans⟩
  have hnodup : (t.map key).Nodup := List.pairwise_map.mpr (ht.imp ne_of_lt)
  refine List.Perm.eq_of_pairwise ?_ (List.pairwise_insertionSort _ l) (ht.imp le_of_lt)
    ((List.perm_insertionSort _ l).trans hp.symm)
  intro a b ha hb hab hba
  have hat := hp.mem_iff.mpr ((List.mem_insertionSort _).mp ha)
  exact List.inj_on_of_nodup_map hnodup hat hb (le_antisymm hab hba)

/-- The elements with the key of an element are only that one when keys are distinct. -/
theorem filter_eq_singleton [DecidableEq β] {key : α → β} {l : List α} (h : (l.map key).Nodup)
    {a : α} (ha : a ∈ l) : l.filter (fun b => key b = key a) = [a] := by
  induction l with
  | nil => cases ha
  | cons c l ih =>
    obtain ⟨hc, hl⟩ := List.nodup_cons.mp h
    rcases List.mem_cons.mp ha with rfl | ha
    · have hnone : l.filter (fun b => key b = key a) = [] :=
        List.filter_eq_nil_iff.mpr fun b hb he =>
          hc (List.mem_map.mpr ⟨b, hb, of_decide_eq_true he⟩)
      rw [List.filter_cons_of_pos (by simp), hnone]
    · have hne : key c ≠ key a := fun he => hc (he ▸ List.mem_map_of_mem ha)
      rw [List.filter_cons_of_neg (by simpa using hne), ih hl ha]

/-- A list in ascending order ascends strictly without its repetitions. -/
theorem pairwise_lt_dedup [LinearOrder β] {l : List β} (h : l.Pairwise (· ≤ ·)) :
    l.dedup.Pairwise (· < ·) := by
  have hle := h.sublist l.dedup_sublist
  exact hle.imp₂ (fun a b hab hne => lt_of_le_of_ne hab hne) l.nodup_dedup

section Runs
variable {κ : Type*} [LinearOrder κ] (key : α → κ)

/-- The runs of elements with one key, after a run with the key `k` that has begun. -/
def runsFrom (k : κ) (run : List α) : List α → List (κ × List α)
  | [] => [(k, run)]
  | a :: l => if key a = k then runsFrom k (run ++ [a]) l else (k, run) :: runsFrom (key a) [a] l

/-- The runs of elements with one key, each with its key. -/
def runs : List α → List (κ × List α)
  | [] => []
  | a :: l => runsFrom key (key a) [a] l

variable {key} {l : List α} (hsorted : l.Pairwise fun a b => key a ≤ key b)
include hsorted

/-- The run that has begun goes on with the elements of its key, and every other key has one run. -/
theorem mem_runsFrom {k : κ} (hge : ∀ a ∈ l, k ≤ key a) {run : List α} {k' : κ} {as : List α} :
    (k', as) ∈ runsFrom key k run l ↔ (k' = k ∨ k' ∈ l.map key) ∧
      as = (if k' = k then run else []) ++ l.filter (fun a => key a = k') := by
  induction l generalizing k run with
  | nil =>
    rw [runsFrom, List.mem_singleton, Prod.mk.injEq]
    constructor
    · rintro ⟨rfl, rfl⟩
      exact ⟨.inl rfl, by simp⟩
    · rintro ⟨hk, has⟩
      obtain rfl : k' = k := by simpa using hk
      exact ⟨rfl, by simpa using has⟩
  | cons a l ih =>
    obtain ⟨ha, hsorted⟩ := List.pairwise_cons.mp hsorted
    obtain ⟨hka, hge⟩ := List.forall_mem_cons.mp hge
    by_cases hkey : key a = k
    · subst hkey
      rw [runsFrom, if_pos rfl, ih hsorted hge]
      by_cases hk : k' = key a
      · subst hk
        simp
      · have hne : key a ≠ k' := fun he => hk he.symm
        simp [hk, hne]
    · have hlt : k < key a := lt_of_le_of_ne hka fun he => hkey he.symm
      rw [runsFrom, if_neg hkey, List.mem_cons, ih hsorted ha]
      by_cases hk : k' = k
      · -- the run ends here, as no later element has its key
        subst hk
        have hmem : k' ∉ (a :: l).map key := by
          intro hmem
          obtain ⟨b, hb, hkb⟩ := List.mem_map.mp hmem
          rcases List.mem_cons.mp hb with rfl | hb
          · exact hkey hkb
          · exact absurd (ha b hb) (not_le.mpr (hkb ▸ hlt))
        have hnone : (a :: l).filter (fun b => key b = k') = [] :=
          List.filter_eq_nil_iff.mpr fun b hb he =>
            hmem (List.mem_map.mpr ⟨b, hb, of_decide_eq_true he⟩)
        rw [List.map_cons, List.mem_cons, not_or] at hmem
        simp [hnone, hmem.1, hmem.2]
      · by_cases hka : k' = key a
        · subst hka
          simp [hk]
        · have hne : key a ≠ k' := fun he => hka he.symm
          simp [hk, hka, hne]

/-- The runs of a sorted list are the elements of each of its keys. -/
theorem mem_runs {k : κ} {as : List α} :
    (k, as) ∈ runs key l ↔ k ∈ l.map key ∧ as = l.filter (fun a => key a = k) := by
  cases l with
  | nil => simp [runs]
  | cons a l =>
    obtain ⟨ha, hsorted⟩ := List.pairwise_cons.mp hsorted
    rw [runs, mem_runsFrom hsorted ha, List.map_cons, List.mem_cons]
    by_cases hk : k = key a
    · subst hk
      simp
    · have hne : key a ≠ k := fun he => hk he.symm
      simp [hk, hne]

end Runs

section Joins
variable {γ : Type*}

/-- Selecting from a join by the key of the rows is joining the selected rows. -/
theorem filter_flatMap_key {κ : Type*} [DecidableEq κ] {key : α → κ} {key' : β → κ}
    {f : α → List β} (h : ∀ a, ∀ b ∈ f a, key' b = key a) (l : List α) (k : κ) :
    (l.flatMap f).filter (fun b => key' b = k) = (l.filter fun a => key a = k).flatMap f := by
  induction l with
  | nil => rfl
  | cons a l ih =>
    rw [List.flatMap_cons, List.filter_append, ih]
    by_cases hk : key a = k
    · have hall : (f a).filter (fun b => key' b = k) = f a :=
        List.filter_eq_self.mpr fun b hb => decide_eq_true ((h a b hb).trans hk)
      rw [hall, List.filter_cons_of_pos (by simpa using hk), List.flatMap_cons]
    · have hnone : (f a).filter (fun b => key' b = k) = [] :=
        List.filter_eq_nil_iff.mpr fun b hb he => hk ((h a b hb).symm.trans (of_decide_eq_true he))
      rw [hnone, List.filter_cons_of_neg (by simpa using hk), List.nil_append]

/-- A join in which each row has one partner agrees with the rows. -/
theorem forall₂_flatMap {R : β → α → Prop} {f : α → List β} {l : List α}
    (h : ∀ a ∈ l, ∃ b, f a = [b] ∧ R b a) : List.Forall₂ R (l.flatMap f) l := by
  induction l with
  | nil => exact .nil
  | cons a l ih =>
    obtain ⟨⟨b, hb, hba⟩, hl⟩ := List.forall_mem_cons.mp h
    rw [List.flatMap_cons, hb]
    exact .cons hba (ih hl)

theorem exists_of_forall₂ {R : α → β → Prop} {l : List α} {m : List β} (h : List.Forall₂ R l m)
    {b : β} (hb : b ∈ m) : ∃ a ∈ l, R a b := by
  induction h with
  | nil => cases hb
  | @cons a b' l m hab _ ih =>
    rcases List.mem_cons.mp hb with rfl | hb
    · exact ⟨a, List.mem_cons_self, hab⟩
    · obtain ⟨a', ha', hab'⟩ := ih hb
      exact ⟨a', List.mem_cons_of_mem a ha', hab'⟩

/-- Partners of the elements of a list, one for each. -/
theorem exists_forall₂ {R : α → β → Prop} {l : List α} (h : ∀ a ∈ l, ∃ b, R a b) :
    ∃ m, List.Forall₂ R l m := by
  induction l with
  | nil => exact ⟨[], .nil⟩
  | cons a l ih =>
    obtain ⟨⟨b, hb⟩, hl⟩ := List.forall_mem_cons.mp h
    obtain ⟨m, hm⟩ := ih hl
    exact ⟨b :: m, .cons hb hm⟩

/-- Two lists that agree with a third agree with each other. -/
theorem forall₂_comp {R : α → β → Prop} {S : β → γ → Prop} {l : List α} {m : List β}
    {n : List γ} (h : List.Forall₂ R l m) (h' : List.Forall₂ S m n) :
    List.Forall₂ (Relation.Comp R S) l n := by
  induction h generalizing n with
  | nil => exact List.forall₂_nil_left_iff.mpr (List.forall₂_nil_left_iff.mp h')
  | cons hab _ ih =>
    obtain ⟨c, n, hbc, htail, rfl⟩ := List.forall₂_cons_left_iff.mp h'
    exact .cons ⟨_, hab, hbc⟩ (ih htail)

end Joins
end EntityService.Lib
