import Mathlib.Data.List.ProdSigma
import Mathlib.Data.List.Nodup
import Mathlib.Tactic

/-! Half-open integer ranges, the cells of a product of two of them, and lists of
products that tile a rectangle without overlap. -/
namespace EntityService.Lib

/-- The half-open range from the first to the second bound. -/
abbrev Range := ℕ × ℕ

namespace Range

def positions (r : Range) : List ℕ := List.range' r.1 (r.2 - r.1)

@[simp] theorem mem_positions {r : Range} {i : ℕ} : i ∈ r.positions ↔ r.1 ≤ i ∧ i < r.2 := by
  simp only [positions, List.mem_range'_1]
  omega

theorem nodup_positions (r : Range) : r.positions.Nodup := List.nodup_range'

end Range

/-- All cells of the product of a row range and a column range. -/
def cells (p : Range × Range) : List (ℕ × ℕ) := p.1.positions ×ˢ p.2.positions

@[simp] theorem mem_cells {p : Range × Range} {i j : ℕ} :
    (i, j) ∈ cells p ↔ (p.1.1 ≤ i ∧ i < p.1.2) ∧ (p.2.1 ≤ j ∧ j < p.2.2) := by
  simp [cells, List.mem_product]

theorem nodup_cells (p : Range × Range) : (cells p).Nodup :=
  p.1.nodup_positions.product p.2.nodup_positions

/-- The pieces cover every cell of an `m` by `n` rectangle once, and no other cell. -/
structure Tiles (m n : ℕ) (pieces : List (Range × Range)) : Prop where
  nodup : (pieces.flatMap cells).Nodup
  mem : ∀ i j, (i, j) ∈ pieces.flatMap cells ↔ i < m ∧ j < n

theorem tiles_whole (m n : ℕ) : Tiles m n [((0, m), (0, n))] where
  nodup := by simpa using nodup_cells ((0, m), (0, n))
  mem := by simp

namespace Tiles
variable {m n : ℕ} {pieces : List (Range × Range)}

/-- The areas of the pieces add up to that of the rectangle. -/
theorem sum_area (h : Tiles m n pieces) :
    (pieces.map fun p => (p.1.2 - p.1.1) * (p.2.2 - p.2.1)).sum = m * n := by
  have harea : ∀ p : Range × Range, (cells p).length = (p.1.2 - p.1.1) * (p.2.2 - p.2.1) := by
    intro p
    rw [cells, List.length_product, Range.positions, Range.positions, List.length_range',
      List.length_range']
  have hperm : (pieces.flatMap cells).Perm (List.range m ×ˢ List.range n) := by
    rw [List.perm_ext_iff_of_nodup h.nodup (List.nodup_range.product List.nodup_range)]
    rintro ⟨i, j⟩
    rw [h.mem, List.mem_product, List.mem_range, List.mem_range]
  have hlength := hperm.length_eq
  rw [List.length_flatMap, List.length_product, List.length_range, List.length_range] at hlength
  rw [← hlength]
  exact congrArg List.sum (List.map_congr_left fun p _ => (harea p).symm)

theorem lt_of_mem (h : Tiles m n pieces) {p : Range × Range} (hp : p ∈ pieces) {i j : ℕ}
    (hc : (i, j) ∈ cells p) : i < m ∧ j < n :=
  (h.mem i j).mp (List.mem_flatMap.mpr ⟨p, hp, hc⟩)

end Tiles
end EntityService.Lib
