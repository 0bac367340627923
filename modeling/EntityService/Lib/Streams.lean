import Mathlib.Data.List.Destutter
import Mathlib.Data.List.Nodup
import Mathlib.Data.List.ReduceOption
import Mathlib.Tactic

/-! Streams of pieces: removing adjacent repetitions from a sorted stream, trimming a stream at
both ends, and cutting a stream of pieces of one length. -/
namespace EntityService.Lib
variable {α β : Type*}

section Unique
variable [DecidableEq α] {r : α → α → Prop} [Std.Antisymm r] {l : List α}

theorem mem_destutter_ne (h : l.Pairwise r) (a : α) : a ∈ l.destutter (· ≠ ·) ↔ a ∈ l := by
  rw [h.destutter_eq_dedup, List.mem_dedup]

theorem nodup_destutter_ne (h : l.Pairwise r) : (l.destutter (· ≠ ·)).Nodup := by
  rw [h.destutter_eq_dedup]
  exact l.nodup_dedup

/-- A header that no element is written as stays in front of the elements. -/
theorem destutter_cons_map_ne [DecidableEq β] {f : α → β} (hf : f.Injective) {header : β}
    (hh : ∀ a, f a ≠ header) (l : List α) :
    (header :: l.map f).destutter (· ≠ ·) = header :: (l.destutter (· ≠ ·)).map f := by
  cases l with
  | nil => rfl
  | cons a l =>
    have hne : header ≠ f a := (hh a).symm
    rw [List.map_destutter_ne _ hf, List.map_cons, List.destutter_cons_cons, if_pos hne,
      List.destutter_cons']

end Unique

/-- A list stays as it is when neither its first nor its last element is dropped. -/
theorem trim_eq_self {p : α → Bool} {l : List α} (hhead : ∀ a ∈ l.head?, p a = false)
    (hlast : ∀ a ∈ l.getLast?, p a = false) :
    ((l.dropWhile p).reverse.dropWhile p).reverse = l := by
  have hdrop : ∀ t : List α, (∀ a ∈ t.head?, p a = false) → t.dropWhile p = t := by
    intro t ht
    cases t with
    | nil => rfl
    | cons a t => exact List.dropWhile_cons_of_neg (by simp [ht a rfl])
  rw [hdrop l hhead, hdrop l.reverse (by rwa [List.head?_reverse]), List.reverse_reverse]

/-- The piece at an index, cut out of the concatenation of pieces of one length. -/
theorem take_drop_flatten {n : ℕ} {ls : List (List α)} (h : ∀ l ∈ ls, l.length = n) (i : ℕ) :
    (ls.flatten.drop (i * n)).take n = (ls[i]?).getD [] := by
  induction ls generalizing i with
  | nil => simp
  | cons l ls ih =>
    have hl : l.length = n := h l List.mem_cons_self
    have hls := ih fun l' hl' => h l' (List.mem_cons_of_mem l hl')
    cases i with
    | zero =>
      rw [Nat.zero_mul, List.drop_zero, List.flatten_cons, List.take_left' hl]
      rfl
    | succ i =>
      have hi : (i + 1) * n = n + i * n := by ring
      rw [hi, ← List.drop_drop, List.flatten_cons, List.drop_left' hl, hls]
      simp

theorem length_flatten_of_length {n : ℕ} {ls : List (List α)} (h : ∀ l ∈ ls, l.length = n) :
    ls.flatten.length = ls.length * n := by
  induction ls with
  | nil => simp
  | cons l ls ih =>
    have hls := ih fun l' hl' => h l' (List.mem_cons_of_mem l hl')
    rw [List.flatten_cons, List.length_append, hls, h l List.mem_cons_self, List.length_cons]
    ring

/-- Consecutive windows of one length put together are a prefix. -/
theorem flatten_windows (l : List α) (n k : ℕ) :
    ((List.range k).map fun g => (l.drop (g * n)).take n).flatten = l.take (k * n) := by
  induction k with
  | zero => simp
  | succ k ih =>
    have hk : (k + 1) * n = k * n + n := by ring
    rw [List.range_succ, List.map_append, List.flatten_append, ih, hk, List.take_add]
    simp

/-- Two neighbours among ascending cuts. -/
theorem mem_zip_cuts {a c : ℕ} {cuts : List ℕ} (hcuts : (a :: cuts).Pairwise (· < ·))
    (hlast : (a :: cuts).getLast? = some c) {r : ℕ × ℕ} (hr : r ∈ (a :: cuts).zip cuts) :
    r.1 < r.2 ∧ r.2 ≤ c := by
  induction cuts generalizing a with
  | nil => cases hr
  | cons b cuts ih =>
    obtain ⟨hab, hcuts⟩ := List.pairwise_cons.mp hcuts
    rw [List.getLast?_cons_cons] at hlast
    have hbc : b ≤ c := by
      rcases List.mem_cons.mp (List.mem_of_getLast? hlast) with rfl | hc
      · exact le_rfl
      · exact ((List.pairwise_cons.mp hcuts).1 c hc).le
    rw [List.zip_cons_cons] at hr
    rcases List.mem_cons.mp hr with rfl | hr
    · exact ⟨hab b List.mem_cons_self, hbc⟩
    · exact ih hcuts hlast hr

/-- The pieces between ascending cuts put together are what lies between the first and the
last cut. -/
theorem flatMap_zip_cuts {a c : ℕ} {cuts : List ℕ} (l : List α)
    (hcuts : (a :: cuts).Pairwise (· < ·)) (hlast : (a :: cuts).getLast? = some c) :
    ((a :: cuts).zip cuts).flatMap (fun r => (l.drop r.1).take (r.2 - r.1)) =
      (l.drop a).take (c - a) := by
  induction cuts generalizing a with
  | nil =>
    obtain rfl : a = c := by simpa using hlast
    simp
  | cons b cuts ih =>
    obtain ⟨hab, hbc⟩ := mem_zip_cuts hcuts hlast (r := (a, b)) (by simp)
    simp only at hab hbc
    have hc : c ≥ b := hbc
    obtain ⟨-, hcuts⟩ := List.pairwise_cons.mp hcuts
    rw [List.getLast?_cons_cons] at hlast
    have hsplit : c - a = (b - a) + (c - b) := by omega
    have hdrop : (l.drop a).drop (b - a) = l.drop b := by
      rw [List.drop_drop]
      congr 1
      omega
    rw [List.zip_cons_cons, List.flatMap_cons, ih hcuts hlast, hsplit, List.take_add, hdrop]

theorem reduceOption_window (l : List α) (start n : ℕ) :
    ((List.range n).map fun i => l[start + i]?).reduceOption = (l.drop start).take n := by
  induction n with
  | zero => simp
  | succ n ih =>
    rw [List.range_succ, List.map_append, List.reduceOption_append, ih, List.take_add_one,
      List.getElem?_drop, List.map_singleton]
    cases l[start + n]? with
    | none => rfl
    | some a => rfl

end EntityService.Lib
