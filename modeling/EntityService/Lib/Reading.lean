import Mathlib.Data.List.Basic
import Mathlib.Tactic

/-! Reading from the front of a stream, where a read at its end is too short and raises nothing,
and readers whose calls deliver what they hold piece by piece. -/
namespace EntityService.Lib
variable {α : Type*}

/-- What is read, and the rest of the stream. -/
def readUpTo (size : ℕ) (stream : List α) : List α × List α := (stream.take size, stream.drop size)

theorem readUpTo_append {size : ℕ} {front rest : List α} (h : front.length = size) :
    readUpTo size (front ++ rest) = (front, rest) := by
  unfold readUpTo
  rw [List.take_left' h, List.drop_left' h]

theorem readUpTo_short {size : ℕ} {stream : List α} (h : stream.length ≤ size) :
    readUpTo size stream = (stream, []) := by
  unfold readUpTo
  rw [List.take_of_length_le h, List.drop_of_length_le h]

@[simp] theorem readUpTo_nil (size : ℕ) : readUpTo size ([] : List α) = ([], []) :=
  readUpTo_short (Nat.zero_le size)

@[simp] theorem readUpTo_fst_append_snd (size : ℕ) (stream : List α) :
    (readUpTo size stream).1 ++ (readUpTo size stream).2 = stream :=
  List.take_append_drop size stream

/-- A prefix of two parts ends in the first or goes on into the second. -/
theorem prefix_append_cases {q a b : List α} (h : q <+: a ++ b) :
    (q <+: a ∧ q.length < a.length) ∨ ∃ q', q = a ++ q' ∧ q' <+: b := by
  rcases lt_or_ge q.length a.length with hlt | hge
  · exact .inl ⟨List.prefix_of_prefix_length_le h (List.prefix_append a b) hlt.le, hlt⟩
  · have hprefix : a <+: q := List.prefix_of_prefix_length_le (List.prefix_append a b) h hge
    obtain ⟨q', rfl⟩ := hprefix
    exact .inr ⟨q', rfl, (List.prefix_append_right_inj a).mp h⟩

section Reader
variable {σ β : Type*}

/-- What the calls of a reader deliver, one after the other. -/
def deliveries (read : σ → β → σ × List α) : σ → List β → List (List α)
  | _, [] => []
  | s, b :: bs => (read s b).2 :: deliveries read (read s b).1 bs

@[simp] theorem length_deliveries (read : σ → β → σ × List α) (s : σ) (bs : List β) :
    (deliveries read s bs).length = bs.length := by
  induction bs generalizing s with
  | nil => rfl
  | cons b bs ih => rw [deliveries, List.length_cons, List.length_cons, ih]

variable {read : σ → β → σ × List α} {contents : σ → List α}
  (hread : ∀ s b, (read s b).2 ++ contents (read s b).1 = contents s)
include hread

theorem flatten_deliveries_prefix (s : σ) (bs : List β) :
    (deliveries read s bs).flatten <+: contents s := by
  induction bs generalizing s with
  | nil => exact List.nil_prefix
  | cons b bs ih =>
    rw [deliveries, List.flatten_cons, ← hread s b]
    exact (List.prefix_append_right_inj _).mpr (ih _)

variable {p : β → Prop} (hend : ∀ s b, p b → ((read s b).2 = [] ↔ contents s = []))
include hend

/-- A call delivers nothing exactly when the calls before it have delivered everything. -/
theorem deliveries_eq_nil_iff {s : σ} {bs : List β} (hp : ∀ b ∈ bs, p b) {i : ℕ}
    (hi : i < (deliveries read s bs).length) :
    (deliveries read s bs)[i] = [] ↔ ((deliveries read s bs).take i).flatten = contents s := by
  induction bs generalizing s i with
  | nil => cases hi
  | cons b bs ih =>
    obtain ⟨hb, hbs⟩ := List.forall_mem_cons.mp hp
    cases i with
    | zero =>
      change (read s b).2 = [] ↔ [] = contents s
      rw [hend s b hb, eq_comm]
    | succ i =>
      have hlt : i < (deliveries read (read s b).1 bs).length := Nat.lt_of_succ_lt_succ hi
      have hrest := ih hbs hlt
      simp only [deliveries, List.getElem_cons_succ, List.take_succ_cons, List.flatten_cons]
      rw [hrest, ← hread s b, List.append_cancel_left_eq]

/-- Each call delivers something until everything is delivered. -/
theorem flatten_deliveries_eq {s : σ} {bs : List β} (hp : ∀ b ∈ bs, p b)
    (hlen : (contents s).length ≤ bs.length) : (deliveries read s bs).flatten = contents s := by
  induction bs generalizing s with
  | nil => exact (List.length_eq_zero_iff.mp (Nat.le_zero.mp hlen)).symm
  | cons b bs ih =>
    obtain ⟨hb, hbs⟩ := List.forall_mem_cons.mp hp
    by_cases hnil : contents s = []
    · have hdelivered := flatten_deliveries_prefix hread s (b :: bs)
      rw [hnil] at hdelivered ⊢
      exact List.prefix_nil.mp hdelivered
    · have hpos := List.length_pos_iff.mpr (mt (hend s b hb).mp hnil)
      have hlength := congrArg List.length (hread s b)
      rw [List.length_append] at hlength
      rw [List.length_cons] at hlen
      rw [deliveries, List.flatten_cons, ih hbs (by omega), hread]

end Reader
end EntityService.Lib
